import Mathlib

/-!
# Families indexed by threads

A concurrent program keeps one value per thread or per process: a program point, a counter. Two
readings of such a family carry counting invariants, and each has one law for a step of one thread.

`tally cost family` adds up the cost of every member, for instance one for every thread that holds a
permit; `tally_update` says what a step of one member does to it. `least counters` is the smallest
of finitely many counters; `least_update_succ` says that advancing one counter by one advances the
least by one exactly when the advanced counter passes no other, and leaves it alone otherwise.
-/

set_option autoImplicit false
set_option relaxedAutoImplicit false

namespace VehicleComm.Library

open Finset

/-- A value of an updated family is the new one, or one of another member. -/
theorem eq_some_of_update {ι κ : Type*} [DecidableEq ι] {family : ι → Option κ} {i j : ι}
    {x : Option κ} {y : κ} (h : Function.update family i x j = some y) :
    (j = i ∧ x = some y) ∨ (j ≠ i ∧ family j = some y) := by
  by_cases hj : j = i
  · subst hj
    rw [Function.update_self] at h
    exact Or.inl ⟨rfl, h⟩
  · rw [Function.update_of_ne hj] at h
    exact Or.inr ⟨hj, h⟩

section Tally

variable {ι κ : Type*} [Fintype ι] {cost : κ → ℕ} {family : ι → κ}

/-- The sum over the family of the cost of each member. -/
def tally (cost : κ → ℕ) (family : ι → κ) : ℕ := ∑ i, cost (family i)

/-- A step of one member exchanges its old cost for its new one. -/
theorem tally_update [DecidableEq ι] (cost : κ → ℕ) (family : ι → κ) (i : ι) (x : κ) :
    tally cost (Function.update family i x) + cost (family i) = tally cost family + cost x := by
  have hrest : ∑ j ∈ univ.erase i, cost (Function.update family i x j) =
      ∑ j ∈ univ.erase i, cost (family j) :=
    Finset.sum_congr rfl fun j hj ↦ by rw [Function.update_of_ne (Finset.ne_of_mem_erase hj)]
  have hnew := Finset.add_sum_erase univ (fun j ↦ cost (Function.update family i x j))
    (Finset.mem_univ i)
  have hold := Finset.add_sum_erase univ (fun j ↦ cost (family j)) (Finset.mem_univ i)
  simp only [Function.update_self] at hnew
  unfold tally
  omega

/-- A step that keeps the cost of the member that takes it keeps the tally. -/
theorem tally_update_of_eq [DecidableEq ι] {i : ι} {x : κ} (hcost : cost x = cost (family i)) :
    tally cost (Function.update family i x) = tally cost family := by
  have hstep := tally_update cost family i x
  omega

theorem cost_le_tally (i : ι) : cost (family i) ≤ tally cost family :=
  Finset.single_le_sum (f := fun j ↦ cost (family j)) (fun _ _ ↦ Nat.zero_le _) (Finset.mem_univ i)

theorem tally_eq_zero_iff : tally cost family = 0 ↔ ∀ i, cost (family i) = 0 := by
  simp [tally]

end Tally

section Least

variable {ι : Type*} [Fintype ι] [Nonempty ι] {counters : ι → ℕ}

/-- The smallest of a finite family of counters. -/
def least (counters : ι → ℕ) : ℕ := univ.inf' univ_nonempty counters

theorem least_le (i : ι) : least counters ≤ counters i :=
  Finset.inf'_le counters (Finset.mem_univ i)

theorem le_least_iff {bound : ℕ} : bound ≤ least counters ↔ ∀ i, bound ≤ counters i := by
  simp [least, Finset.le_inf'_iff]

theorem exists_eq_least (counters : ι → ℕ) : ∃ i, counters i = least counters := by
  obtain ⟨i, -, hi⟩ := Finset.exists_mem_eq_inf'
    (univ_nonempty : (univ : Finset ι).Nonempty) counters
  exact ⟨i, hi.symm⟩

/-- A lower bound that some counter attains is the least. -/
theorem least_eq {bound : ℕ} {i : ι} (hle : ∀ j, bound ≤ counters j) (hat : counters i = bound) :
    least counters = bound :=
  le_antisymm (hat ▸ least_le i) (le_least_iff.mpr hle)

/-- Advancing one counter by one advances the least by one when no other counter is passed, and
leaves it where it was otherwise. -/
theorem least_update_succ [DecidableEq ι] (counters : ι → ℕ) (i : ι)
    [Decidable (∀ j, j ≠ i → counters i + 1 ≤ counters j)] :
    least (Function.update counters i (counters i + 1)) =
      least counters + if ∀ j, j ≠ i → counters i + 1 ≤ counters j then 1 else 0 := by
  split_ifs with hlast
  · have hleast : least counters = counters i := by
      refine least_eq (i := i) (fun j ↦ ?_) rfl
      by_cases hj : j = i
      · rw [hj]
      · exact (Nat.le_succ _).trans (hlast j hj)
    rw [hleast]
    refine least_eq (i := i) (fun j ↦ ?_) (Function.update_self ..)
    by_cases hj : j = i
    · rw [hj, Function.update_self]
    · rw [Function.update_of_ne hj]
      exact hlast j hj
  · push Not at hlast
    obtain ⟨j, hj, hlt⟩ := hlast
    obtain ⟨k, hk⟩ := exists_eq_least counters
    -- the least is attained away from `i`: at `j` when `i` attains it, at `k` otherwise
    have hother : ∃ l, l ≠ i ∧ counters l = least counters := by
      by_cases hki : k = i
      · have hij : least counters ≤ counters j := least_le j
        rw [hki] at hk
        exact ⟨j, hj, by omega⟩
      · exact ⟨k, hki, hk⟩
    obtain ⟨l, hl, hleast⟩ := hother
    refine least_eq (i := l) (fun q ↦ ?_) (by rw [Function.update_of_ne hl, hleast, add_zero])
    have hq : least counters ≤ counters q := least_le q
    by_cases hqi : q = i
    · rw [hqi, Function.update_self, ← hqi]
      omega
    · rw [Function.update_of_ne hqi]
      omega

end Least

end VehicleComm.Library
