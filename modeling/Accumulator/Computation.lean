/-!
# Computations with a state

A computation that fails has a state behind it too.

* `answer` — what a computation yields and the state behind it, or its error alone.
* `Restores` — where a computation fails, the state is as it was; then the error alone says it all.
-/

namespace Accumulator

variable {ε σ α : Type}

/-- What a computation yields from a state on, with the state behind it, or its error alone. -/
def answer (x : EStateM ε σ α) (s : σ) : Except ε (α × σ) :=
  match x s with
  | .ok a s => .ok (a, s)
  | .error e _ => .error e

/-- Where the computation fails, the state is as it was. -/
def Restores (x : EStateM ε σ α) : Prop := ∀ ⦃s s' : σ⦄ ⦃e : ε⦄, x s = .error e s' → s' = s

/-- A computation that restores its state is known by its answers. -/
theorem Restores.eq_answer {x : EStateM ε σ α} (h : Restores x) (s : σ) :
    x s = match answer x s with
      | .ok (a, s') => .ok a s'
      | .error e => .error e s := by
  unfold answer
  cases hx : x s with
  | ok a s' => rfl
  | error e s' =>
    obtain rfl := h hx
    rfl

end Accumulator
