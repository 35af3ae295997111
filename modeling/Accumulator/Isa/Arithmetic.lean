import Accumulator.Word

/-!
# The arithmetic unit

* `addWithCarry` — the sum of two words and the carry out of its highest bit.
* `Operation.apply` — the result of an operation on two words. A subtraction adds the complement
  and then one, so its carry is set when no borrow occurs.
-/

namespace Accumulator

/-- What the arithmetic unit can do. The shifts move the first word by one bit. -/
inductive Operation where
  | add
  | and
  | subtract
  | shiftLeft
  | shiftRight
  deriving DecidableEq, Repr

/-- A result with the facts that the status flags take from it. -/
structure ArithmeticResult where
  value : Word
  zero : Bool
  carry : Bool
  deriving DecidableEq, Repr

/-- The sum of two words, and whether it carries out of bit 31. -/
def addWithCarry (a b : Word) : Word × Bool := (a + b, decide (UInt32.size ≤ a.toNat + b.toNat))

/-- The word and the carry that an operation yields. -/
def Operation.compute (op : Operation) (a b : Word) : Word × Bool :=
  match op with
  | .add => addWithCarry a b
  | .and => (a &&& b, false)
  | .subtract =>
    let complemented := addWithCarry a (~~~b)
    let final := addWithCarry complemented.1 1
    (final.1, complemented.2 || final.2)
  | .shiftLeft => (a <<< 1, false)
  | .shiftRight => (a >>> 1, false)

/-- The result of an operation. -/
def Operation.apply (op : Operation) (a b : Word) : ArithmeticResult :=
  let result := op.compute a b
  { value := result.1, zero := result.1 == 0, carry := result.2 }

end Accumulator
