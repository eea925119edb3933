import Mathlib

/-!
# Two-way time transfer over the integers

Two clocks differ by an offset, and a message each way takes a delay. The sum of the two one-way
readings is twice the offset plus the difference `skew` of the delays, and half of it, truncated
toward zero, estimates the offset. The estimate is within half the skew, rounded up, of the offset
(`abs_sub_estimate_le`), so an estimate bounds the offset it was made from
(`abs_le_of_estimate_le`).
-/

set_option autoImplicit false
set_option relaxedAutoImplicit false

namespace VehicleComm.Library

/-- Half of an integer truncated toward zero, doubled, is within one of it. -/
theorem abs_two_mul_tdiv_two_sub_le (total : ℤ) : |2 * total.tdiv 2 - total| ≤ 1 := by
  have hsum := Int.mul_tdiv_add_tmod total 2
  have hlow := Int.lt_tmod_of_pos total (b := 2) (by decide)
  have hhigh := Int.tmod_lt_of_pos total (b := 2) (by decide)
  rw [abs_le]
  constructor <;> omega

/-- Twice the error of the estimate is at most the skew and one. -/
theorem two_mul_abs_sub_estimate_le (offset skew : ℤ) :
    2 * |offset - (2 * offset + skew).tdiv 2| ≤ |skew| + 1 := by
  have hhalf := abs_two_mul_tdiv_two_sub_le (2 * offset + skew)
  have herror : 2 * (offset - (2 * offset + skew).tdiv 2) =
      -(2 * (2 * offset + skew).tdiv 2 - (2 * offset + skew)) + -skew := by ring
  calc 2 * |offset - (2 * offset + skew).tdiv 2|
      = |2 * (offset - (2 * offset + skew).tdiv 2)| := by rw [abs_mul]; rfl
    _ = |-(2 * (2 * offset + skew).tdiv 2 - (2 * offset + skew)) + -skew| := by rw [herror]
    _ ≤ |-(2 * (2 * offset + skew).tdiv 2 - (2 * offset + skew))| + |-skew| := abs_add_le _ _
    _ ≤ |skew| + 1 := by rw [abs_neg, abs_neg]; linarith

/-- The estimate is within half the skew, rounded up, of the offset. -/
theorem abs_sub_estimate_le (offset skew : ℤ) :
    |offset - (2 * offset + skew).tdiv 2| ≤ (|skew| + 1) / 2 := by
  have hdouble := two_mul_abs_sub_estimate_le offset skew
  omega

/-- The estimate is within half the round trip, and one, of the offset. -/
theorem abs_sub_estimate_le_delay (offset there back : ℤ) (hthere : 0 ≤ there)
    (hback : 0 ≤ back) :
    |offset - (2 * offset + (back - there)).tdiv 2| ≤ (back + there).tdiv 2 + 1 := by
  have hskew : |back - there| ≤ back + there := by
    rw [abs_le]
    constructor <;> linarith
  have hhalf := Int.tdiv_eq_ediv_of_nonneg (b := 2) (add_nonneg hback hthere)
  calc |offset - (2 * offset + (back - there)).tdiv 2|
      ≤ (|back - there| + 1) / 2 := abs_sub_estimate_le offset (back - there)
    _ ≤ (back + there).tdiv 2 + 1 := by omega

/-- A small estimate bounds the offset it was made from. -/
theorem abs_le_of_estimate_le {offset skew bound : ℤ}
    (hestimate : |(2 * offset + skew).tdiv 2| ≤ bound) : |offset| ≤ bound + (|skew| + 1) / 2 := by
  have herror := abs_sub_estimate_le offset skew
  calc |offset| = |(offset - (2 * offset + skew).tdiv 2) + (2 * offset + skew).tdiv 2| := by
        rw [sub_add_cancel]
    _ ≤ |offset - (2 * offset + skew).tdiv 2| + |(2 * offset + skew).tdiv 2| := abs_add_le _ _
    _ ≤ bound + (|skew| + 1) / 2 := by linarith

/-- Two delays between zero and a bound differ by at most the bound. -/
theorem abs_sub_le_of_delays {first second bound : ℤ} (hfirst : 0 ≤ first ∧ first ≤ bound)
    (hsecond : 0 ≤ second ∧ second ≤ bound) : |first - second| ≤ bound := by
  rw [abs_le]
  constructor <;> linarith

end VehicleComm.Library
