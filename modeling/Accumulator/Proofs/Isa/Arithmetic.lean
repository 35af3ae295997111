import Accumulator.Isa.Arithmetic

/-!
# What the arithmetic unit computes

* `apply_add` — a sum with its two facts: whether it wraps to zero, and whether it carries.
* `apply_subtract` — a difference with its two facts: whether the words are equal, and whether the second
  one is not above the first.
-/

namespace Accumulator.Operation

theorem apply_add (a b : Word) : add.apply a b =
    ⟨a + b, decide ((a.toNat + b.toNat) % UInt32.size = 0), decide (UInt32.size ≤ a.toNat + b.toNat)⟩ := by
  have hzero : (a + b == 0) = decide ((a.toNat + b.toNat) % UInt32.size = 0) := by
    rw [Bool.eq_iff_iff, beq_iff_eq, decide_eq_true_iff, ← UInt32.toNat_inj, UInt32.toNat_add]
    rfl
  rw [apply, ← hzero]
  rfl

/-- To add the complement and then one is to subtract. -/
theorem compute_subtract_value (a b : Word) : (subtract.compute a b).1 = a - b := by
  have hnot := UInt32.toNat_not b
  have ha := UInt32.toNat_lt a
  have hb := UInt32.toNat_lt b
  apply UInt32.toNat_inj.mp
  rw [compute, addWithCarry, addWithCarry, UInt32.toNat_add, UInt32.toNat_add, hnot, UInt32.toNat_sub]
  simp only [UInt32.size, UInt32.reduceToNat] at *
  omega

/-- One of the two additions carries exactly if there is no borrow: the first one if the second word is
below the first word, the second one if the words are equal. -/
theorem compute_subtract_carry (a b : Word) : (subtract.compute a b).2 = decide (b.toNat ≤ a.toNat) := by
  have hnot := UInt32.toNat_not b
  have ha := UInt32.toNat_lt a
  have hb := UInt32.toNat_lt b
  rw [compute, addWithCarry, addWithCarry, ← Bool.decide_or, decide_eq_decide, UInt32.toNat_add, hnot]
  simp only [UInt32.size, UInt32.reduceToNat] at *
  omega

theorem apply_subtract (a b : Word) : subtract.apply a b =
    ⟨a - b, decide (a.toNat = b.toNat), decide (b.toNat ≤ a.toNat)⟩ := by
  have hzero : (a - b == 0) = decide (a.toNat = b.toNat) := by
    rw [Bool.eq_iff_iff, beq_iff_eq, decide_eq_true_iff, UInt32.toNat_inj, UInt32.sub_eq_iff_eq_add,
      UInt32.zero_add]
  simp only [apply, compute_subtract_value, compute_subtract_carry, hzero]

end Accumulator.Operation
