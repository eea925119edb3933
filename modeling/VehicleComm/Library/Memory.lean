import Mathlib

/-!
# Byte copies

A block of memory is a list of a fixed length. `memcpy dst src count` overwrites the first `count`
entries of `dst` with those of `src`, `overwrite block offset part` overwrites a stretch in the
middle, and `slice block offset count` reads one. The laws below say what a later read of a prefix,
of a stretch or of one entry finds.
-/

set_option autoImplicit false
set_option relaxedAutoImplicit false

namespace VehicleComm.Library

variable {α : Type*} {dst src : List α} {count : ℕ}

/-- Copies the first `count` entries of `src` over the first `count` entries of `dst`. -/
def memcpy (dst src : List α) (count : ℕ) : List α := src.take count ++ dst.drop count

/-- The copied prefix is the prefix of the source. -/
theorem take_memcpy (hsrc : count ≤ src.length) :
    (memcpy dst src count).take count = src.take count := by
  rw [memcpy, List.take_append_of_le_length (by simp [hsrc]), List.take_take, min_self]

/-! ### Stretches of a block -/

variable {block part : List α} {offset : ℕ}

/-- The `count` entries from `offset` on. -/
def slice (block : List α) (offset count : ℕ) : List α := (block.drop offset).take count

/-- The block with `part` written from `offset` on; what would fall behind the end is not written.
-/
def overwrite (block : List α) (offset : ℕ) (part : List α) : List α :=
  (block.take offset ++ part ++ block.drop (offset + part.length)).take block.length

@[simp] theorem length_overwrite (block : List α) (offset : ℕ) (part : List α) :
    (overwrite block offset part).length = block.length := by
  simp only [overwrite, List.length_take, List.length_append, List.length_drop]
  omega

/-- An entry of a written block comes from the part where that was written. -/
theorem getElem?_overwrite (block : List α) (offset : ℕ) (part : List α) {i : ℕ}
    (hi : i < block.length) :
    (overwrite block offset part)[i]? =
      if offset ≤ i ∧ i < offset + part.length then part[i - offset]? else block[i]? := by
  rw [overwrite, List.getElem?_take_of_lt hi, List.append_assoc]
  by_cases hbefore : i < offset
  · rw [if_neg (by omega), List.getElem?_append_left (by rw [List.length_take]; omega),
      List.getElem?_take_of_lt hbefore]
  · have hlength : (block.take offset).length = offset := by
      rw [List.length_take]
      omega
    rw [List.getElem?_append_right (by omega), hlength]
    by_cases hinside : i < offset + part.length
    · rw [if_pos (by omega), List.getElem?_append_left (by omega)]
    · rw [if_neg (by omega), List.getElem?_append_right (by omega), List.getElem?_drop]
      congr 1
      omega

theorem getElem?_slice (block : List α) (offset count i : ℕ) :
    (slice block offset count)[i]? = if i < count then block[offset + i]? else none := by
  rw [slice]
  split_ifs with hi
  · rw [List.getElem?_take_of_lt hi, List.getElem?_drop]
  · rw [List.getElem?_eq_none_iff, List.length_take]
    omega

theorem length_slice (hfits : offset + count ≤ block.length) :
    (slice block offset count).length = count := by
  rw [slice, List.length_take, List.length_drop]
  omega

/-- A prefix of a written block is the prefix, written. -/
theorem take_overwrite (block : List α) (offset : ℕ) (part : List α) (count : ℕ) :
    (overwrite block offset part).take count = overwrite (block.take count) offset part := by
  apply List.ext_getElem?
  intro i
  by_cases hi : i < min count block.length
  · rw [List.getElem?_take_of_lt (by omega), getElem?_overwrite _ _ _ (by omega),
      getElem?_overwrite _ _ _ (by rw [List.length_take]; omega), List.getElem?_take_of_lt
        (by omega)]
  · rw [List.getElem?_eq_none_iff.mpr (by rw [List.length_take, length_overwrite]; omega),
      List.getElem?_eq_none_iff.mpr (by rw [length_overwrite, List.length_take]; omega)]

/-- A write leaves what stands before it. -/
theorem take_overwrite_of_le (hbefore : count ≤ offset) :
    (overwrite block offset part).take count = block.take count := by
  apply List.ext_getElem?
  intro i
  by_cases hi : i < min count block.length
  · rw [List.getElem?_take_of_lt (by omega), getElem?_overwrite _ _ _ (by omega),
      if_neg (by omega), List.getElem?_take_of_lt (by omega)]
  · rw [List.getElem?_eq_none_iff.mpr (by rw [List.length_take, length_overwrite]; omega),
      List.getElem?_eq_none_iff.mpr (by rw [List.length_take]; omega)]

/-- A write that ends where the block ends. -/
theorem overwrite_suffix (hends : offset + part.length = block.length) :
    overwrite block offset part = block.take offset ++ part := by
  rw [overwrite, List.drop_of_length_le hends.ge, List.append_nil, List.take_of_length_le]
  rw [List.length_append, List.length_take]
  omega

/-- A read of the stretch written finds the part. -/
theorem slice_overwrite (hfits : offset + part.length ≤ block.length) :
    slice (overwrite block offset part) offset part.length = part := by
  apply List.ext_getElem?
  intro i
  rw [getElem?_slice]
  split_ifs with hi
  · rw [getElem?_overwrite _ _ _ (by omega), if_pos (by omega), Nat.add_sub_cancel_left]
  · exact (List.getElem?_eq_none_iff.mpr (by omega)).symm

/-- A read away from the stretch written finds what was there. -/
theorem slice_overwrite_of_disjoint {start : ℕ}
    (haway : start + count ≤ offset ∨ offset + part.length ≤ start) :
    slice (overwrite block offset part) start count = slice block start count := by
  apply List.ext_getElem?
  intro i
  rw [getElem?_slice, getElem?_slice]
  split_ifs with hi
  · by_cases hlength : start + i < block.length
    · rw [getElem?_overwrite _ _ _ hlength, if_neg (by omega)]
    · rw [List.getElem?_eq_none_iff.mpr (by rw [length_overwrite]; omega),
        List.getElem?_eq_none_iff.mpr (by omega)]
  · rfl

/-- A read within a prefix of the block is a read of the block. -/
theorem slice_take {start kept : ℕ} (hwithin : start + count ≤ kept) :
    slice (block.take kept) start count = slice block start count := by
  apply List.ext_getElem?
  intro i
  rw [getElem?_slice, getElem?_slice]
  split_ifs with hi
  · rw [List.getElem?_take_of_lt (by omega)]
  · rfl

/-- A read past a new front is a read of the block. -/
theorem slice_append_drop {front : List α} {start kept : ℕ} (hfront : front.length = kept)
    (hafter : kept ≤ start) :
    slice (front ++ block.drop kept) start count = slice block start count := by
  rw [slice, slice, List.drop_append, List.drop_of_length_le (by omega), List.nil_append,
    List.drop_drop, hfront, Nat.add_sub_cancel' hafter]

end VehicleComm.Library
