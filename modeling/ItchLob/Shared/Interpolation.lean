import Mathlib.Order.Monotone.Defs
import Mathlib.Order.Nat

set_option autoImplicit false

namespace Interpolation

/-- Piecewise-linear interpolation through the knots `c 0, c 1, ...` placed `width`
apart, with the division rounded down. -/
def interpolate (c : Nat → Nat) (width x : Nat) : Nat :=
  c (x / width) + (c (x / width + 1) - c (x / width)) * (x % width) / width

variable {c : Nat → Nat} {width : Nat}

theorem interpolate_knot (positive : 0 < width) (k : Nat) : interpolate c width (k * width) = c k := by
  rw [interpolate, Nat.mul_div_cancel _ positive, Nat.mul_mod_left, Nat.mul_zero, Nat.zero_div, Nat.add_zero]

theorem knot_le_interpolate (x : Nat) : c (x / width) ≤ interpolate c width x := Nat.le_add_right _ _

theorem interpolate_le_knot (rises : Monotone c) (positive : 0 < width) (x : Nat) :
    interpolate c width x ≤ c (x / width + 1) := by
  have inside : (c (x / width + 1) - c (x / width)) * (x % width) / width ≤ c (x / width + 1) - c (x / width) := by
    apply Nat.div_le_of_le_mul
    rw [Nat.mul_comm width]
    exact Nat.mul_le_mul_left _ (Nat.le_of_lt (Nat.mod_lt x positive))
  have climbs : c (x / width) ≤ c (x / width + 1) := rises (Nat.le_succ _)
  unfold interpolate
  omega

theorem interpolate_monotone (rises : Monotone c) (positive : 0 < width) : Monotone (interpolate c width) := by
  intro x y le
  rcases Nat.lt_or_eq_of_le (Nat.div_le_div_right (c := width) le) with lower | same
  · calc interpolate c width x ≤ c (x / width + 1) := interpolate_le_knot rises positive x
      _ ≤ c (y / width) := rises lower
      _ ≤ interpolate c width y := knot_le_interpolate y
  · have nearer : x % width ≤ y % width := by
      have left := Nat.div_add_mod x width
      have right := Nat.div_add_mod y width
      rw [same] at left
      omega
    unfold interpolate
    rw [same]
    exact Nat.add_le_add_left (Nat.div_le_div_right (Nat.mul_le_mul_left _ nearer)) _

end Interpolation
