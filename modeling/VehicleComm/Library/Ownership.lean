import Mathlib

/-!
# Exclusive ownership of tokens

Tokens, such as the indices of a pool of buffers, lie in places: a free list, the hands of a thread,
a queue. `holdings i` lists the tokens of the place `i`. The family is exclusive when no place has a
token twice and no two places share one, and complete when every token is somewhere.

Each token stands for a piece of memory, `content x`, and each place claims something of the memory
behind its tokens. The family is governed when it is exclusive and complete and every claim is true
(`Governed`). Whoever holds a token may write the memory behind it without disturbing the claims of
the others: a step that moves one token and writes only there (`Governed.move`) and a step that
keeps the tokens where they are and writes behind one of them (`Governed.rewrite`) keep the family
governed, as soon as the claim on that one token is true.
-/

set_option autoImplicit false
set_option relaxedAutoImplicit false

namespace VehicleComm.Library

variable {ι κ β : Type*}

/-- Every token is in at most one place, and there once. -/
structure Exclusive (holdings : ι → List κ) : Prop where
  nodup : ∀ i, (holdings i).Nodup
  apart : ∀ i j, i ≠ j → (holdings i).Disjoint (holdings j)

section Tokens

variable {before after : ι → List κ}

/-- Tokens of different places are different. -/
theorem Exclusive.ne (h : Exclusive before) {i j : ι} (hij : i ≠ j) {x y : κ}
    (hx : x ∈ before i) (hy : y ∈ before j) : x ≠ y := by
  rintro rfl
  exact h.apart i j hij hx hy

/-- Where a token is after one token moved: the one that moved is in its new place, any other is
where it was. -/
theorem Exclusive.source_of_move (h : Exclusive before) {i j : ι} {x : κ}
    (hfrom : (before i).Perm (x :: after i)) (hto : (after j).Perm (x :: before j))
    (hrest : ∀ k, k ≠ i → k ≠ j → after k = before k) {k : ι} {y : κ} (hy : y ∈ after k) :
    y ≠ x ∧ y ∈ before k ∨ y = x ∧ k = j := by
  have hx : x ∈ before i := hfrom.mem_iff.mpr List.mem_cons_self
  have hgone : x ∉ after i := (List.nodup_cons.mp (hfrom.nodup_iff.mp (h.nodup i))).1
  by_cases hk : k = i
  · subst hk
    refine Or.inl ⟨?_, hfrom.mem_iff.mpr (List.mem_cons_of_mem x hy)⟩
    rintro rfl
    exact hgone hy
  · by_cases hkj : k = j
    · subst hkj
      by_cases hyx : y = x
      · exact Or.inr ⟨hyx, rfl⟩
      · exact Or.inl ⟨hyx, List.mem_of_ne_of_mem hyx (hto.mem_iff.mp hy)⟩
    · rw [hrest k hk hkj] at hy
      exact Or.inl ⟨(h.ne (Ne.symm hk) hx hy).symm, hy⟩

/-- A step that moves a token from one place to another. -/
theorem Exclusive.move (h : Exclusive before) {i j : ι} (hij : i ≠ j) {x : κ}
    (hfrom : (before i).Perm (x :: after i)) (hto : (after j).Perm (x :: before j))
    (hrest : ∀ k, k ≠ i → k ≠ j → after k = before k) : Exclusive after := by
  have hx : x ∈ before i := hfrom.mem_iff.mpr List.mem_cons_self
  constructor
  · intro k
    by_cases hk : k = i
    · subst hk
      exact (List.nodup_cons.mp (hfrom.nodup_iff.mp (h.nodup k))).2
    · by_cases hkj : k = j
      · subst hkj
        exact hto.nodup_iff.mpr (List.nodup_cons.mpr ⟨h.apart i k hij hx, h.nodup k⟩)
      · rw [hrest k hk hkj]
        exact h.nodup k
  · intro k l hkl y hk hl
    rcases h.source_of_move hfrom hto hrest hk with ⟨hyx, hkin⟩ | ⟨hyx, hkj⟩
    · rcases h.source_of_move hfrom hto hrest hl with ⟨-, hlin⟩ | ⟨hyx', -⟩
      · exact h.apart k l hkl hkin hlin
      · exact hyx hyx'
    · rcases h.source_of_move hfrom hto hrest hl with ⟨hyx', -⟩ | ⟨-, hlj⟩
      · exact hyx' hyx
      · exact hkl (hkj.trans hlj.symm)

/-- Every token is in some place. -/
def Complete (holdings : ι → List κ) : Prop := ∀ x, ∃ i, x ∈ holdings i

/-- A step that moves a token from one place to another loses none. -/
theorem Complete.move (h : Complete before) {i j : ι} {x : κ}
    (hfrom : (before i).Perm (x :: after i)) (hto : (after j).Perm (x :: before j))
    (hrest : ∀ k, k ≠ i → k ≠ j → after k = before k) : Complete after := by
  intro y
  obtain ⟨k, hk⟩ := h y
  by_cases hyx : y = x
  · subst hyx
    exact ⟨j, hto.mem_iff.mpr List.mem_cons_self⟩
  · refine ⟨k, ?_⟩
    by_cases hki : k = i
    · subst hki
      exact List.mem_of_ne_of_mem hyx (hfrom.mem_iff.mp hk)
    · by_cases hkj : k = j
      · subst hkj
        exact hto.mem_iff.mpr (List.mem_cons_of_mem x hk)
      · rwa [hrest k hki hkj]

/-- Of tokens that are owned exclusively and completely, each is in exactly one place. -/
theorem Exclusive.existsUnique (h : Exclusive before) (hcomplete : Complete before) (x : κ) :
    ∃! i, x ∈ before i := by
  obtain ⟨i, hi⟩ := hcomplete x
  refine ⟨i, hi, fun j hj ↦ ?_⟩
  by_contra hji
  exact h.apart j i hji hj hi

end Tokens

/-- The tokens are owned exclusively, none is lost, and what every place claims of its tokens is
true. -/
structure Governed (holdings : ι → List κ) (claim : ι → κ → β → Prop) (content : κ → β) :
    Prop where
  exclusive : Exclusive holdings
  complete : Complete holdings
  sound : ∀ i, ∀ x ∈ holdings i, claim i x (content x)

section Claims

variable {before after : ι → List κ} {claim claim' : ι → κ → β → Prop} {content content' : κ → β}

/-- A step that moves no token and writes no memory. -/
theorem Governed.mono (h : Governed before claim content)
    (hkeep : ∀ i, ∀ x ∈ before i, claim i x (content x) → claim' i x (content x)) :
    Governed before claim' content :=
  ⟨h.exclusive, h.complete, fun i x hx ↦ hkeep i x hx (h.sound i x hx)⟩

/-- A step that writes the memory behind one token of a place and moves no token. -/
theorem Governed.rewrite (h : Governed before claim content) {i : ι} {x : κ} (hx : x ∈ before i)
    (hholdings : after = before) (hcontent : ∀ y, y ≠ x → content' y = content y)
    (hkeep : ∀ k y, y ∈ before k → y ≠ x → claim k y (content y) → claim' k y (content y))
    (hclaim : claim' i x (content' x)) : Governed after claim' content' := by
  subst hholdings
  refine ⟨h.exclusive, h.complete, fun k y hy ↦ ?_⟩
  by_cases hyx : y = x
  · subst hyx
    by_cases hk : k = i
    · subst hk
      exact hclaim
    · exact absurd hy (h.exclusive.apart i k (Ne.symm hk) hx)
  · rw [hcontent y hyx]
    exact hkeep k y hy hyx (h.sound k y hy)

/-- A step that moves one token and writes only behind it. -/
theorem Governed.move (h : Governed before claim content) {i j : ι} (hij : i ≠ j) {x : κ}
    (hfrom : (before i).Perm (x :: after i)) (hto : (after j).Perm (x :: before j))
    (hrest : ∀ k, k ≠ i → k ≠ j → after k = before k)
    (hcontent : ∀ y, y ≠ x → content' y = content y)
    (hkeep : ∀ k y, y ∈ before k → y ≠ x → claim k y (content y) → claim' k y (content y))
    (hclaim : claim' j x (content' x)) : Governed after claim' content' := by
  refine ⟨h.exclusive.move hij hfrom hto hrest, h.complete.move hfrom hto hrest, fun k y hy ↦ ?_⟩
  rcases h.exclusive.source_of_move hfrom hto hrest hy with ⟨hyx, hyin⟩ | ⟨rfl, rfl⟩
  · rw [hcontent y hyx]
    exact hkeep k y hyin hyx (h.sound k y hyin)
  · exact hclaim

end Claims

end VehicleComm.Library
