import Mathlib
import Statics.Constant.Fold

/-!
# Comparing doubles

What is known about the equality of doubles comes only with the whole library. So all that rests on it stands here.
-/

namespace Statics

/-- Equal doubles are the same, unless both are zeros. -/
theorem eq_of_beq_float {x y : Float} (h : (x == y) = true) : x == 0.0 ∧ y == 0.0 ∨ x = y := by
  obtain ⟨-, -, rfl | ⟨rfl, rfl⟩ | ⟨rfl, rfl⟩⟩ := Float.beq_iff_ne_nan_and_eq.mp h
  · exact .inr rfl
  all_goals exact .inl ⟨rfl, rfl⟩

namespace Constant

theorem numberKey_eq_of_beq {x y : Float} (h : (x == y) = true) : numberKey x = numberKey y := by
  rcases eq_of_beq_float h with ⟨hx, hy⟩ | rfl
  · rw [numberKey, numberKey, if_pos hx, if_pos hy]
  · rfl

/-- Two doubles are equal in both orders. -/
theorem compareFloats_swap (p q : Float) :
    (compareFloats p q).map Ordering.isEq = (compareFloats q p).map Ordering.isEq := by
  have hbeq : (p == q) = (q == p) := BEq.comm
  have hne {p q : Float} (h : p < q) : (p == q) = false := by
    have hlt : p.toModel.unpack.compare q.toModel.unpack = some .lt := eq_of_beq (of_decide_eq_true h)
    show (p.toModel.unpack.compare q.toModel.unpack == some .eq) = false
    rw [hlt]
    rfl
  unfold compareFloats
  by_cases h : p < q <;> by_cases h' : q < p <;> simp_all [Except.map]

end Constant

end Statics
