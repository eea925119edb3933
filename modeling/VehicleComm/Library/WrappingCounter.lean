import Mathlib

/-!
# A clock read through a counter that wraps

Time is a natural number, counted from any origin. A reader sees it modulo `2 ^ bits` only
(`counterAt`), and orders two readings by the sign of their difference (`Before`). That is the order
of the times as long as they are not further apart than half the range (`before_iff_lt`). A reader
that waits for `wait` after a reading, and finds that the end of the wait is not ahead of it, has
waited for `wait` in time however late it looks (`le_of_not_before`).
-/

set_option autoImplicit false
set_option relaxedAutoImplicit false

namespace VehicleComm.Library

variable {bits : ℕ}

/-- The value of the counter at a time. -/
def counterAt (bits time : ℕ) : BitVec bits := BitVec.ofNat bits time

/-- The first reading is before the second: their difference is negative as a signed number. -/
def Before (a b : BitVec bits) : Prop := (a - b).toInt < 0

instance (a b : BitVec bits) : Decidable (Before a b) := inferInstanceAs (Decidable (_ < _))

/-- A reading plus a wait is the reading at the end of the wait. -/
theorem counterAt_add (since wait : ℕ) :
    counterAt bits since + BitVec.ofNat bits wait = counterAt bits (since + wait) :=
  (BitVec.ofNat_add since wait).symm

/-- The difference of two readings is the difference of the times, wrapped. -/
theorem toInt_counterAt_sub (a b : ℕ) :
    (counterAt bits a - counterAt bits b).toInt = ((a : ℤ) - b).bmod (2 ^ bits) := by
  simp only [counterAt, BitVec.toInt_sub, BitVec.toInt_ofNat', Int.bmod_sub_bmod,
    Int.sub_bmod_bmod]

/-- Assumes: two times that are at most half the range apart. Their readings are ordered as they
are. -/
theorem before_iff_lt {a b : ℕ} (hbehind : 2 * b ≤ 2 * a + 2 ^ bits)
    (hahead : 2 * a < 2 * b + 2 ^ bits) : Before (counterAt bits a) (counterAt bits b) ↔ a < b := by
  have hwrap : ((a : ℤ) - b).bmod (2 ^ bits) = (a : ℤ) - b := by
    refine Int.bmod_eq_of_le_mul_two ?_ ?_ <;> push_cast <;> zify at hbehind hahead <;> omega
  rw [Before, toInt_counterAt_sub, hwrap]
  omega

/-- Assumes: a wait of at most half the range, and a reader that does not find the end of the wait
ahead of it. The wait is over. -/
theorem le_of_not_before {since wait now : ℕ} (hrange : 2 * wait ≤ 2 ^ bits) (hsince : since ≤ now)
    (hover : ¬ Before (counterAt bits now) (counterAt bits since + BitVec.ofNat bits wait)) :
    since + wait ≤ now := by
  by_contra hearly
  rw [counterAt_add, before_iff_lt (by omega) (by omega)] at hover
  omega

end VehicleComm.Library
