import Accumulator.Collect

/-!
# Results in sequence

* `Except.bind_eq_ok`, `Except.bind_eq_error` — a sequence of two steps succeeds exactly if both do, and
  fails where one of them fails.
* `mapM_eq_ok_iff` — a step for every element of a list succeeds exactly if each does. Reading and
  resolving stop at the first error; `collect` goes on. Both succeed alike.
* `eq_map_of_map_eq_ok` — the results of such steps, if each step has a known result.
* `failures`, `collect_eq_error_iff` — the errors among results, all of which `collect` reports.
  `failure?_mapM` — a sequence of steps reports the first of them.
-/

namespace Accumulator

variable {ε α β : Type}

theorem Except.bind_eq_ok {x : Except ε α} {f : α → Except ε β} {b : β} :
    (x >>= f) = .ok b ↔ ∃ a, x = .ok a ∧ f a = .ok b := by
  cases x with
  | error e => simp [bind, Except.bind]
  | ok a => simp [bind, Except.bind]

theorem Except.bind_eq_error {x : Except ε α} {f : α → Except ε β} {e : ε} :
    (x >>= f) = .error e ↔ x = .error e ∨ ∃ a, x = .ok a ∧ f a = .error e := by
  cases x with
  | error e' => simp [bind, Except.bind]
  | ok a => simp [bind, Except.bind]

theorem Except.map_eq_error {x : Except ε α} {f : α → β} {e : ε} :
    x.map f = .error e ↔ x = .error e := by
  cases x <;> simp [Except.map]

theorem Except.map_eq_ok {x : Except ε α} {f : α → β} {b : β} :
    x.map f = .ok b ↔ ∃ a, x = .ok a ∧ f a = b := by
  cases x <;> simp [Except.map]

theorem Except.mapError_eq_ok {ε' : Type} {x : Except ε α} {f : ε → ε'} {a : α} :
    x.mapError f = .ok a ↔ x = .ok a := by
  cases x with
  | error e => exact iff_of_false (fun h => by cases h) (fun h => by cases h)
  | ok b =>
    constructor
    · intro h
      cases h
      rfl
    · intro h
      cases h
      rfl

theorem Except.mapError_eq_error {ε' : Type} {x : Except ε α} {f : ε → ε'} {e' : ε'} :
    x.mapError f = .error e' ↔ ∃ e, x = .error e ∧ e' = f e := by
  cases x with
  | error e =>
    constructor
    · intro h
      cases h
      exact ⟨e, rfl, rfl⟩
    · rintro ⟨_, h, rfl⟩
      cases h
      rfl
  | ok a => exact iff_of_false (fun h => by cases h) (by simp)

/-- A change of the errors commutes with a change of the value. -/
theorem Except.map_mapError {ε' : Type} (x : Except ε α) (f : α → β) (k : ε → ε') :
    (x.mapError k).map f = (x.map f).mapError k := by
  cases x <;> rfl

theorem mapM_eq_ok_iff {f : α → Except ε β} {xs : List α} {ys : List β} :
    xs.mapM f = .ok ys ↔ xs.map f = ys.map .ok := by
  induction xs generalizing ys with
  | nil => cases ys <;> simp [pure, Except.pure]
  | cons x xs ih =>
    rw [List.mapM_cons, Except.bind_eq_ok]
    constructor
    · rintro ⟨y, hy, h⟩
      obtain ⟨zs, hzs, h⟩ := Except.bind_eq_ok.mp h
      cases h
      rw [List.map_cons, List.map_cons, hy, ih.mp hzs]
    · intro h
      cases ys with
      | nil => cases h
      | cons y ys =>
        rw [List.map_cons, List.map_cons, List.cons.injEq] at h
        exact ⟨y, h.1, Except.bind_eq_ok.mpr ⟨ys, ih.mpr h.2, rfl⟩⟩

/-- Steps that can only have known results have these. -/
theorem eq_map_of_map_eq_ok {f : α → Except ε β} {g : α → β} {xs : List α} {ys : List β}
    (hg : ∀ x ∈ xs, ∀ y, f x = .ok y → y = g x) (h : xs.map f = ys.map .ok) : ys = xs.map g := by
  induction xs generalizing ys with
  | nil => simpa using h.symm
  | cons x xs ih =>
    cases ys with
    | nil => cases h
    | cons y ys =>
      rw [List.map_cons, List.map_cons, List.cons.injEq] at h
      rw [List.map_cons, ← hg x List.mem_cons_self y h.1,
        ih (fun x' hx' => hg x' (List.mem_cons_of_mem x hx')) h.2]

/-- Steps that stop at an error stop at an error of one of them. -/
theorem exists_of_mapM_eq_error {f : α → Except ε β} {xs : List α} {e : ε}
    (h : xs.mapM f = .error e) : ∃ x ∈ xs, f x = .error e := by
  induction xs with
  | nil => cases h
  | cons x xs ih =>
    rw [List.mapM_cons, Except.bind_eq_error] at h
    rcases h with hx | ⟨y, -, h⟩
    · exact ⟨x, List.mem_cons_self, hx⟩
    · rcases Except.bind_eq_error.mp h with hxs | ⟨ys, -, h⟩
      · obtain ⟨x', hx', hfail⟩ := ih hxs
        exact ⟨x', List.mem_cons_of_mem x hx', hfail⟩
      · cases h

/-- A change of the errors of each step is a change of the error of all of them. -/
theorem mapM_map_mapError {γ ε' : Type} {f : α → Except ε β} {g : γ → Except ε' β} {h : α → γ}
    {k : ε → ε'} {xs : List α} (hsteps : ∀ x ∈ xs, g (h x) = (f x).mapError k) :
    (xs.map h).mapM g = (xs.mapM f).mapError k := by
  induction xs with
  | nil => rfl
  | cons x xs ih =>
    have hrest := ih fun other hother => hsteps other (List.mem_cons_of_mem x hother)
    rw [List.map_cons, List.mapM_cons, List.mapM_cons, hsteps x List.mem_cons_self, hrest]
    cases f x with
    | error e => rfl
    | ok y => cases xs.mapM f <;> rfl

/-! ## Errors among results -/

/-- The error of a result, if it is one. -/
def failure? : Except ε α → Option ε
  | .ok _ => none
  | .error e => some e

/-- The errors among results, in order. -/
def failures (results : List (Except ε α)) : List ε := results.filterMap failure?

theorem failure?_eq_some {result : Except ε α} {e : ε} : failure? result = some e ↔ result = .error e := by
  cases result <;> simp [failure?]

@[simp] theorem failures_nil : failures ([] : List (Except ε α)) = [] := rfl

@[simp] theorem failures_ok_cons (a : α) (results : List (Except ε α)) :
    failures (.ok a :: results) = failures results := rfl

@[simp] theorem failures_error_cons (e : ε) (results : List (Except ε α)) :
    failures (.error e :: results) = e :: failures results := rfl

theorem mem_failures {results : List (Except ε α)} {e : ε} :
    e ∈ failures results ↔ .error e ∈ results := by
  simp only [failures, List.mem_filterMap, failure?_eq_some, exists_eq_right]

theorem failure?_map (result : Except ε α) (f : α → β) : failure? (result.map f) = failure? result := by
  cases result <;> rfl

theorem failure?_mapError {ε' : Type} (result : Except ε α) (k : ε → ε') :
    failure? (result.mapError k) = (failure? result).map k := by
  cases result <;> rfl

/-- Steps that stop at an error stop at the first one. -/
theorem failure?_mapM (f : α → Except ε β) (xs : List α) :
    failure? (xs.mapM f) = xs.findSome? fun x => failure? (f x) := by
  induction xs with
  | nil => rfl
  | cons x xs ih =>
    rw [List.mapM_cons, List.findSome?_cons, ← ih]
    cases f x with
    | error e => rfl
    | ok y => cases xs.mapM f <;> rfl

theorem failures_map (f : α → Except ε β) (xs : List α) :
    failures (xs.map f) = xs.filterMap fun x => failure? (f x) := List.filterMap_map

theorem failures_append (results others : List (Except ε α)) :
    failures (results ++ others) = failures results ++ failures others := List.filterMap_append

theorem failures_map_ok (values : List α) : failures (values.map (Except.ok (ε := ε))) = [] := by
  induction values with
  | nil => rfl
  | cons value values ih => rw [List.map_cons, failures_ok_cons, ih]

theorem failures_of_collect_eq_ok {results : List (Except ε α)} {values : List α}
    (h : collect results = .ok values) : failures results = [] := by
  rw [collect_eq_ok_iff.mp h, failures_map_ok]

theorem failures_of_collect_eq_error {results : List (Except ε α)} {errors : List ε}
    (h : collect results = .error errors) : failures results = errors ∧ errors ≠ [] := by
  fun_induction collect results generalizing errors with
  | case1 | case2 => cases h
  | case3 value rest found hfound ih =>
    cases h
    exact ih hfound
  | case4 error rest values hvalues ih =>
    cases h
    rw [failures_error_cons, failures_of_collect_eq_ok hvalues]
    exact ⟨rfl, List.cons_ne_nil error []⟩
  | case5 error rest found hfound ih =>
    cases h
    rw [failures_error_cons, (ih hfound).1]
    exact ⟨rfl, List.cons_ne_nil error found⟩

/-- **No error is lost, and none is added.** -/
theorem collect_eq_error_iff {results : List (Except ε α)} {errors : List ε} :
    collect results = .error errors ↔ failures results = errors ∧ errors ≠ [] := by
  refine ⟨failures_of_collect_eq_error, ?_⟩
  rintro ⟨rfl, hne⟩
  cases hcollect : collect results with
  | ok values => exact absurd (failures_of_collect_eq_ok hcollect) hne
  | error found => rw [(failures_of_collect_eq_error hcollect).1]

theorem collect_concat_ok (results : List (Except ε α)) (value : α) :
    collect (results ++ [.ok value]) = (collect results).map (· ++ [value]) := by
  fun_induction collect results with
  | case1 => rfl
  | case2 first rest values hrest ih | case3 first rest errors hrest ih =>
    rw [hrest] at ih
    rw [List.cons_append, collect, ih]
    rfl
  | case4 error rest values hrest ih | case5 error rest errors hrest ih =>
    rw [hrest] at ih
    rw [List.cons_append, collect, ih]
    rfl

/-- A change of each error is a change of the errors that are collected. -/
theorem collect_map_mapError {ε' : Type} (k : ε → ε') (results : List (Except ε α)) :
    collect (results.map (Except.mapError k)) = (collect results).mapError (List.map k) := by
  induction results with
  | nil => rfl
  | cons result rest ih =>
    cases result with
    | ok value =>
      change collect (.ok value :: rest.map (Except.mapError k)) = _
      rw [collect, collect, ih]
      cases collect rest <;> rfl
    | error e =>
      change collect (.error (k e) :: rest.map (Except.mapError k)) = _
      rw [collect, collect, ih]
      cases collect rest <;> rfl

/-- The failures of a map are attributed along the list that is mapped. -/
theorem sublist_map_failures {γ : Type} {f : α → Except ε β} {g : ε → γ} {key : α → γ}
    (hkey : ∀ a e, f a = .error e → g e = key a) (xs : List α) :
    ((failures (xs.map f)).map g).Sublist (xs.map key) := by
  induction xs with
  | nil => exact List.Sublist.slnil
  | cons x xs ih =>
    rw [List.map_cons, List.map_cons]
    cases hx : f x with
    | ok y => exact ih.cons (key x)
    | error e =>
      rw [failures_error_cons, List.map_cons, hkey x e hx]
      exact ih.cons_cons (key x)

end Accumulator
