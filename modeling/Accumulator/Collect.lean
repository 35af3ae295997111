/-!
# Collecting results

* `collect` — every value of a list of results, or every error in it, in order. An error does not
  stop the search for further ones.
-/

namespace Accumulator

variable {ε α : Type}

/-- Every value, or every error. -/
def collect : List (Except ε α) → Except (List ε) (List α)
  | [] => .ok []
  | .ok value :: rest =>
    match collect rest with
    | .ok values => .ok (value :: values)
    | .error errors => .error errors
  | .error error :: rest =>
    match collect rest with
    | .ok _ => .error [error]
    | .error errors => .error (error :: errors)

theorem collect_map_ok (values : List α) :
    collect (values.map Except.ok : List (Except ε α)) = .ok values := by
  induction values with
  | nil => rfl
  | cons value values ih => rw [List.map_cons, collect, ih]

theorem eq_map_ok_of_collect {results : List (Except ε α)} {values : List α}
    (h : collect results = .ok values) : results = values.map .ok := by
  fun_induction collect results generalizing values with
  | case1 => cases h; rfl
  | case2 value rest found hfound ih => cases h; rw [ih hfound, List.map_cons]
  | case3 | case4 | case5 => cases h

/-- No error is lost: all values are there exactly if every result is one. -/
theorem collect_eq_ok_iff {results : List (Except ε α)} {values : List α} :
    collect results = .ok values ↔ results = values.map .ok :=
  ⟨eq_map_ok_of_collect, fun h => h ▸ collect_map_ok values⟩

end Accumulator
