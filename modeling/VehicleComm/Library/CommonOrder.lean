import Mathlib

/-!
# Receivers of one sequence

Several receivers each get the first items of a sequence of their own, and the sequences are ordered
by one key. Then the receivers agree on the order of any two items (`pair_sublist_of_prefix`): an
item that is ahead of one that a receiver has got was got before it.
-/

set_option autoImplicit false
set_option relaxedAutoImplicit false

namespace VehicleComm.Library

variable {α κ : Type*} [LinearOrder κ] {key : α → κ} {items gotten : List α} {first later : α}

/-- Two items of an ordered list are in it in their order. -/
theorem pair_sublist_of_pairwise
    (hordered : items.Pairwise fun first later ↦ key first < key later)
    (hfirst : first ∈ items) (hlater : later ∈ items) (hlt : key first < key later) :
    [first, later].Sublist items := by
  obtain ⟨front, rest, hsplit⟩ := List.append_of_mem hfirst
  rw [hsplit] at hlater hordered ⊢
  obtain ⟨-, -, hfront⟩ := List.pairwise_append.mp hordered
  have hbehind : later ∈ rest := by
    rcases List.mem_append.mp hlater with hbefore | hfrom
    · exact absurd (hfront later hbefore first List.mem_cons_self) hlt.asymm
    · rcases List.mem_cons.mp hfrom with rfl | hafter
      · exact absurd hlt (lt_irrefl _)
      · exact hafter
  exact ((List.singleton_sublist.mpr hbehind).cons_cons first).trans (List.sublist_append_right ..)

/-- Two items that were got are in their order. -/
theorem key_lt_of_pair_sublist
    (hordered : items.Pairwise fun first later ↦ key first < key later)
    (hpair : [first, later].Sublist items) : key first < key later :=
  List.rel_of_pairwise_cons (hordered.sublist hpair) (List.mem_singleton_self later)

/-- A receiver that has got an item has got every item ahead of it before. -/
theorem pair_sublist_of_prefix
    (hordered : items.Pairwise fun first later ↦ key first < key later) (hgotten : gotten <+: items)
    (hfirst : first ∈ items) (hlater : later ∈ gotten) (hlt : key first < key later) :
    [first, later].Sublist gotten := by
  obtain ⟨rest, rfl⟩ := hgotten
  obtain ⟨hgotten, -, hacross⟩ := List.pairwise_append.mp hordered
  refine pair_sublist_of_pairwise hgotten ?_ hlater hlt
  rcases List.mem_append.mp hfirst with hgot | hahead
  · exact hgot
  · exact absurd (hacross later hlater first hahead) hlt.asymm

end VehicleComm.Library
