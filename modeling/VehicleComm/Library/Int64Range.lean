import Mathlib

/-!
# The range of a signed integer of 64 bits

An operation on `Int64` wraps the exact result of the operation on the integers (`Int.bmod`), so it
gives the exact result when that is in the range of `int64_t`, and only then (`toInt_add_iff` and
its companions). A computation of several sums, differences and products wraps once
(`toInt_add_mul`).
-/

set_option autoImplicit false
set_option relaxedAutoImplicit false

namespace VehicleComm.Library

/-- The values of `int64_t`. -/
def InInt64 (x : ℤ) : Prop := -2 ^ 63 ≤ x ∧ x < 2 ^ 63

instance (x : ℤ) : Decidable (InInt64 x) := inferInstanceAs (Decidable (_ ∧ _))

/-- Wrapping leaves exactly the values in the range alone. -/
theorem bmod_eq_self_iff {x : ℤ} : x.bmod (2 ^ 64) = x ↔ InInt64 x := by
  constructor
  · intro h
    have hle := Int.le_bmod (x := x) (m := 2 ^ 64) (by decide)
    have hlt := Int.bmod_lt (x := x) (m := 2 ^ 64) (by decide)
    rw [h] at hle hlt
    exact ⟨by omega, by omega⟩
  · rintro ⟨hle, hlt⟩
    exact Int.bmod_eq_of_le (by omega) (by omega)

theorem toInt_add_iff (a b : Int64) :
    (a + b).toInt = a.toInt + b.toInt ↔ InInt64 (a.toInt + b.toInt) := by
  rw [Int64.toInt_add, bmod_eq_self_iff]

theorem toInt_sub_iff (a b : Int64) :
    (a - b).toInt = a.toInt - b.toInt ↔ InInt64 (a.toInt - b.toInt) := by
  rw [Int64.toInt_sub, bmod_eq_self_iff]

/-- A sum with a product, wrapped. -/
theorem toInt_add_mul (a b c : Int64) :
    (a + b * c).toInt = (a.toInt + b.toInt * c.toInt).bmod (2 ^ 64) := by
  rw [Int64.toInt_add, Int64.toInt_mul, Int.add_bmod_bmod]

/-- The conversion of an unsigned integer wraps too. -/
theorem toInt_toInt64 (n : UInt64) : n.toInt64.toInt = (n.toNat : ℤ).bmod (2 ^ 64) := by
  rw [Int64.toInt, UInt64.toBitVec_toInt64, BitVec.toInt_eq_toNat_bmod, UInt64.toNat_toBitVec]

end VehicleComm.Library
