import Mathlib

/-!
# Integers and octets

An integer is built from octets by shifting in one after the other (`appendOctet`), from the most
significant on with `foldl`, from the least significant on with `foldr` (`fromLittleEndian`). As
long as there is room, different octets give different integers (`foldl_appendOctet_injective`), and
an integer is what its own octets build (`fromLittleEndian_octetsOf`).
-/

set_option autoImplicit false
set_option relaxedAutoImplicit false

namespace VehicleComm.Library

def appendOctet (k : UInt64) (octet : UInt8) : UInt64 := (k <<< 8) ||| octet.toUInt64

/-- The integer in some octets, the least significant first. -/
def fromLittleEndian (octets : List UInt8) : UInt64 :=
  octets.foldr (fun octet rest ↦ appendOctet rest octet) 0

/-- The lowest `count` octets of an integer, the least significant first. -/
def octetsOf (count : ℕ) (value : UInt64) : List UInt8 :=
  (List.range count).map fun i ↦ (value >>> UInt64.ofNat (8 * i)).toUInt8

theorem toNat_appendOctet {k : UInt64} (hk : k.toNat < 2 ^ 56) (octet : UInt8) :
    (appendOctet k octet).toNat = k.toNat * 256 + octet.toNat := by
  have hoctet : octet.toNat < 2 ^ 8 := octet.toNat_lt
  have hshift : (k <<< 8).toNat = k.toNat <<< 8 := by
    rw [UInt64.toNat_shiftLeft, Nat.shiftLeft_eq, Nat.shiftLeft_eq]
    exact Nat.mod_eq_of_lt (by simp; omega)
  rw [appendOctet, UInt64.toNat_or, hshift, UInt8.toNat_toUInt64,
    ← Nat.shiftLeft_add_eq_or_of_lt hoctet, Nat.shiftLeft_eq]

/-! ### The most significant octet first -/

/-- No octet is lost as long as there is room for all of them. -/
theorem foldl_appendOctet_injective (octets : List UInt8) :
    ∀ {octets' : List UInt8} {k k' : UInt64}, octets.length = octets'.length →
      (k.toNat + 1) * 256 ^ octets.length ≤ 2 ^ 64 →
      (k'.toNat + 1) * 256 ^ octets.length ≤ 2 ^ 64 →
      octets.foldl appendOctet k = octets'.foldl appendOctet k' → k = k' ∧ octets = octets' := by
  induction octets with
  | nil =>
    intro octets' k k' hlength _ _ heq
    obtain rfl : octets' = [] := List.eq_nil_of_length_eq_zero hlength.symm
    exact ⟨heq, rfl⟩
  | cons octet rest ih =>
    intro octets' k k' hlength hk hk' heq
    cases octets' with
    | nil => exact absurd hlength (Nat.succ_ne_zero _)
    | cons octet' rest' =>
      have hroom : ∀ l : UInt64, (l.toNat + 1) * 256 ^ (rest.length + 1) ≤ 2 ^ 64 →
          l.toNat < 2 ^ 56 := by
        intro l hl
        have hpow : 0 < 256 ^ rest.length := Nat.pow_pos (by omega)
        rw [Nat.pow_succ] at hl
        nlinarith
      have hnext : ∀ (l : UInt64) (o : UInt8), (l.toNat + 1) * 256 ^ (rest.length + 1) ≤ 2 ^ 64 →
          ((appendOctet l o).toNat + 1) * 256 ^ rest.length ≤ 2 ^ 64 := by
        intro l o hl
        have ho : o.toNat < 256 := o.toNat_lt
        rw [toNat_appendOctet (hroom l hl)]
        calc (l.toNat * 256 + o.toNat + 1) * 256 ^ rest.length
            ≤ ((l.toNat + 1) * 256) * 256 ^ rest.length := Nat.mul_le_mul_right _ (by omega)
          _ = (l.toNat + 1) * 256 ^ (rest.length + 1) := by ring
          _ ≤ 2 ^ 64 := hl
      obtain ⟨hkeys, hrest⟩ :=
        ih (Nat.succ.inj hlength) (hnext k octet hk) (hnext k' octet' hk') heq
      have hvalues := congrArg UInt64.toNat hkeys
      rw [toNat_appendOctet (hroom k hk), toNat_appendOctet (hroom k' hk')] at hvalues
      have ho : octet.toNat < 256 := octet.toNat_lt
      have ho' : octet'.toNat < 256 := octet'.toNat_lt
      have hsame : k = k' := UInt64.toNat_inj.mp (by omega)
      have hsame' : octet = octet' := UInt8.toNat_inj.mp (by omega)
      exact ⟨hsame, by rw [hsame', hrest]⟩

/-! ### The least significant octet first -/

theorem fromLittleEndian_cons (octet : UInt8) (rest : List UInt8) :
    fromLittleEndian (octet :: rest) = appendOctet (fromLittleEndian rest) octet := rfl

theorem toNat_octet (value : UInt64) {i : ℕ} (hi : i < 8) :
    ((value >>> UInt64.ofNat (8 * i)).toUInt8).toNat = value.toNat / 256 ^ i % 256 := by
  have hshift : (UInt64.ofNat (8 * i)).toNat % 64 = 8 * i := by
    rw [UInt64.toNat_ofNat', Nat.mod_eq_of_lt (by omega), Nat.mod_eq_of_lt (by omega)]
  have hpow : 2 ^ (8 * i) = 256 ^ i := by
    rw [Nat.pow_mul]
  rw [UInt64.toNat_toUInt8, UInt64.toNat_shiftRight, hshift, Nat.shiftRight_eq_div_pow, hpow]

/-- The octets from the `i`-th on build what is left of the integer there. -/
theorem toNat_fromLittleEndian_octets (value : UInt64) (count : ℕ) :
    ∀ i, i + count = 8 →
      (fromLittleEndian ((List.range' i count).map fun j ↦
        (value >>> UInt64.ofNat (8 * j)).toUInt8)).toNat = value.toNat / 256 ^ i := by
  induction count with
  | zero =>
    intro i hi
    have hvalue : value.toNat < 256 ^ i := by
      rw [show i = 8 by omega]
      exact value.toNat_lt
    rw [Nat.div_eq_of_lt hvalue]
    rfl
  | succ count ih =>
    intro i hi
    have hrest := ih (i + 1) (by omega)
    have hbound : value.toNat / 256 ^ (i + 1) < 2 ^ 56 := by
      have hvalue : value.toNat < 2 ^ 64 := value.toNat_lt
      rw [Nat.div_lt_iff_lt_mul (Nat.pow_pos (by omega))]
      calc value.toNat < 2 ^ 56 * 256 ^ 1 := hvalue
        _ ≤ 2 ^ 56 * 256 ^ (i + 1) :=
          Nat.mul_le_mul_left _ (Nat.pow_le_pow_right (by omega) (by omega))
    rw [List.range'_succ, List.map_cons, fromLittleEndian_cons,
      toNat_appendOctet (by rw [hrest]; exact hbound), hrest, toNat_octet value (by omega),
      Nat.pow_succ, ← Nat.div_div_eq_div_mul]
    omega

/-- An integer is built of its eight octets. -/
theorem fromLittleEndian_octetsOf (value : UInt64) :
    fromLittleEndian (octetsOf 8 value) = value := by
  apply UInt64.toNat_inj.mp
  rw [octetsOf, List.range_eq_range', toNat_fromLittleEndian_octets value 8 0 rfl, Nat.pow_zero,
    Nat.div_one]

/-- An integer of two octets is built of them. -/
theorem ofOctets_octetsOf_two (value : UInt16) :
    (((value.toUInt64 >>> UInt64.ofNat (8 * 1)).toUInt8.toUInt16 <<< 8) |||
      (value.toUInt64 >>> UInt64.ofNat (8 * 0)).toUInt8.toUInt16) = value := by
  have hvalue : value.toNat < 65536 := value.toNat_lt
  have hlow := toNat_octet value.toUInt64 (i := 0) (by omega)
  have hhigh := toNat_octet value.toUInt64 (i := 1) (by omega)
  rw [UInt16.toNat_toUInt64] at hlow hhigh
  have hshift : (8 : UInt16).toNat % 16 = 8 := rfl
  apply UInt16.toNat_inj.mp
  rw [UInt16.toNat_or, UInt16.toNat_shiftLeft, UInt8.toNat_toUInt16, UInt8.toNat_toUInt16, hhigh,
    hlow, hshift, Nat.mod_eq_of_lt (by rw [Nat.shiftLeft_eq]; omega),
    ← Nat.shiftLeft_add_eq_or_of_lt (by omega), Nat.shiftLeft_eq]
  omega

end VehicleComm.Library
