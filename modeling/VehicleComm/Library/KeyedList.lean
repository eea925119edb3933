import Mathlib

/-!
# Tables kept as lists of keyed entries

A table is a list of entries, each with a key. `lookup` finds the first entry of a key, `upsert`
changes it in place or appends a new entry. In a table in which no key occurs twice (`KeyUnique`)
the list is a map: `upsert` is the update of one key, `filter` the restriction, and an entry is in
the table exactly when it is what its key is mapped to.

`LeastOf values least` says that `least` is the least of some values, or that there are none; it is
what a loop that remembers the least value so far keeps (`LeastOf.insert`).
-/

set_option autoImplicit false
set_option relaxedAutoImplicit false

namespace VehicleComm.Library

section Tables

variable {ε κ : Type*} {key : ε → κ}

/-- No key occurs twice. -/
def KeyUnique (key : ε → κ) (table : List ε) : Prop := (table.map key).Nodup

theorem KeyUnique.of_cons {e : ε} {rest : List ε} (h : KeyUnique key (e :: rest)) :
    (∀ other ∈ rest, key other ≠ key e) ∧ KeyUnique key rest := by
  rw [KeyUnique, List.map_cons, List.nodup_cons] at h
  refine ⟨fun other hother heq ↦ h.1 ?_, h.2⟩
  rw [← heq]
  exact List.mem_map_of_mem hother

theorem KeyUnique.filter {table : List ε} (h : KeyUnique key table) (p : ε → Bool) :
    KeyUnique key (table.filter p) :=
  h.sublist (List.filter_sublist.map key)

variable [DecidableEq κ]

/-- Every entry has one key. -/
theorem sum_length_filter [Fintype κ] (key : ε → κ) (table : List ε) :
    ∑ k, (table.filter fun e ↦ key e = k).length = table.length := by
  have hcount : ∀ k, (table.filter fun e ↦ key e = k).length =
      (↑(table.map key) : Multiset κ).count k := by
    intro k
    rw [Multiset.coe_count, List.count_eq_countP, List.countP_map, List.countP_eq_length_filter]
    rfl
  rw [Finset.sum_congr rfl fun k _ ↦ hcount k,
    Multiset.sum_count_eq_card fun k _ ↦ Finset.mem_univ k, Multiset.coe_card, List.length_map]

/-- The first entry of a key. -/
def lookup (key : ε → κ) (k : κ) (table : List ε) : Option ε :=
  table.find? fun e ↦ key e = k

/-- Changes the first entry of a key, or appends a new one. -/
def upsert (key : ε → κ) (k : κ) (change : ε → ε) (fresh : ε) : List ε → List ε
  | [] => [fresh]
  | e :: rest => if key e = k then change e :: rest else e :: upsert key k change fresh rest

theorem lookup_nil (k : κ) : lookup key k [] = none := rfl

theorem lookup_cons (k : κ) (e : ε) (rest : List ε) :
    lookup key k (e :: rest) = if key e = k then some e else lookup key k rest := by
  rw [lookup, List.find?_cons]
  by_cases hk : key e = k
  · rw [if_pos hk, decide_eq_true hk]
  · rw [if_neg hk, decide_eq_false hk]
    rfl

theorem key_of_lookup {k : κ} {table : List ε} {e : ε} (h : lookup key k table = some e) :
    key e = k := by
  simpa using List.find?_some h

theorem mem_of_lookup {k : κ} {table : List ε} {e : ε} (h : lookup key k table = some e) :
    e ∈ table :=
  List.mem_of_find?_eq_some h

theorem lookup_eq_none_iff {k : κ} {table : List ε} :
    lookup key k table = none ↔ ∀ e ∈ table, key e ≠ k := by
  simp [lookup]

/-- In a table without repeated keys an entry is what its key is mapped to. -/
theorem KeyUnique.mem_iff {table : List ε} (h : KeyUnique key table) (e : ε) :
    e ∈ table ↔ lookup key (key e) table = some e := by
  refine ⟨fun hmem ↦ ?_, mem_of_lookup⟩
  obtain ⟨first, hfirst⟩ : ∃ first, lookup key (key e) table = some first := by
    rw [← Option.ne_none_iff_exists']
    intro hnone
    exact lookup_eq_none_iff.mp hnone e hmem rfl
  rw [hfirst, List.inj_on_of_nodup_map h (mem_of_lookup hfirst) hmem (key_of_lookup hfirst)]

/-- The entries of one key are what the key is mapped to. -/
theorem KeyUnique.filter_key {table : List ε} (h : KeyUnique key table) (k : κ) :
    (table.filter fun e ↦ key e = k) = (lookup key k table).toList := by
  induction table with
  | nil => rfl
  | cons e rest ih =>
    obtain ⟨hother, hrest⟩ := h.of_cons
    by_cases hk : key e = k
    · have hnone : (rest.filter fun other ↦ key other = k) = [] :=
        List.filter_eq_nil_iff.mpr fun other hmem ↦ by
          rw [← hk]
          simpa using hother other hmem
      rw [List.filter_cons, if_pos (decide_eq_true hk), hnone, lookup_cons, if_pos hk]
      rfl
    · rw [List.filter_cons, if_neg (by simpa using hk), ih hrest, lookup_cons, if_neg hk]

/-! ### Upsert -/

section Upsert

variable {k : κ} {change : ε → ε} {fresh : ε}

theorem map_key_upsert (hchange : ∀ e, key e = k → key (change e) = k) (hfresh : key fresh = k)
    (table : List ε) :
    (upsert key k change fresh table).map key =
      if k ∈ table.map key then table.map key else table.map key ++ [k] := by
  induction table with
  | nil => simp [upsert, hfresh]
  | cons e rest ih =>
    by_cases hk : key e = k
    · rw [upsert, if_pos hk, List.map_cons, List.map_cons, hchange e hk, hk,
        if_pos List.mem_cons_self]
    · have hmem : k ∈ (e :: rest).map key ↔ k ∈ rest.map key := by
        rw [List.map_cons, List.mem_cons, or_iff_right (Ne.symm hk)]
      rw [upsert, if_neg hk, List.map_cons, ih, if_congr hmem rfl rfl, List.map_cons]
      split_ifs <;> rfl

theorem mem_upsert {table : List ε} {e : ε} (he : e ∈ upsert key k change fresh table) :
    e ∈ table ∨ e = fresh ∨ ∃ was, e = change was := by
  induction table with
  | nil => exact Or.inr (Or.inl (List.mem_singleton.mp he))
  | cons first rest ih =>
    rw [upsert] at he
    split_ifs at he with hk
    · rcases List.mem_cons.mp he with rfl | hrest
      · exact Or.inr (Or.inr ⟨first, rfl⟩)
      · exact Or.inl (List.mem_cons_of_mem first hrest)
    · rcases List.mem_cons.mp he with rfl | hrest
      · exact Or.inl List.mem_cons_self
      · exact (ih hrest).imp_left (List.mem_cons_of_mem first)

/-- The keys after an update are those before and the one updated. -/
theorem key_of_mem_upsert {table : List ε} {e : ε} (he : e ∈ upsert key k change fresh table)
    (hchange : ∀ e, key e = k → key (change e) = k) (hfresh : key fresh = k) :
    key e = k ∨ ∃ was ∈ table, key was = key e := by
  have hkey := List.mem_map_of_mem (f := key) he
  rw [map_key_upsert hchange hfresh] at hkey
  split_ifs at hkey
  · exact Or.inr (List.mem_map.mp hkey)
  · rcases List.mem_append.mp hkey with hold | hnew
    · exact Or.inr (List.mem_map.mp hold)
    · exact Or.inl (List.mem_singleton.mp hnew)

/-- An update repeats no key. -/
theorem KeyUnique.upsert {table : List ε} (h : KeyUnique key table)
    (hchange : ∀ e, key e = k → key (change e) = k) (hfresh : key fresh = k) :
    KeyUnique key (upsert key k change fresh table) := by
  rw [KeyUnique, map_key_upsert hchange hfresh]
  split_ifs with hk
  · exact h
  · exact List.nodup_append.mpr ⟨h, List.nodup_singleton k, fun x hx y hy hxy ↦
      hk (by rwa [← List.mem_singleton.mp hy, ← hxy])⟩

/-- An update maps its key to the changed entry, or to the new one. -/
theorem lookup_upsert_self (hchange : ∀ e, key e = k → key (change e) = k) (hfresh : key fresh = k)
    (table : List ε) :
    lookup key k (upsert key k change fresh table) =
      some ((lookup key k table).elim fresh change) := by
  induction table with
  | nil => rw [upsert, lookup_cons, if_pos hfresh, lookup_nil, Option.elim_none]
  | cons e rest ih =>
    by_cases hk : key e = k
    · rw [upsert, if_pos hk, lookup_cons, if_pos (hchange e hk), lookup_cons, if_pos hk,
        Option.elim_some]
    · rw [upsert, if_neg hk, lookup_cons, if_neg hk, ih, lookup_cons, if_neg hk]

/-- An update keeps what the other keys are mapped to. -/
theorem lookup_upsert_of_ne {k' : κ} (hne : k' ≠ k)
    (hchange : ∀ e, key e = k → key (change e) = k) (hfresh : key fresh = k) (table : List ε) :
    lookup key k' (upsert key k change fresh table) = lookup key k' table := by
  induction table with
  | nil => rw [upsert, lookup_cons, hfresh, if_neg (Ne.symm hne)]
  | cons e rest ih =>
    by_cases hk : key e = k
    · rw [upsert, if_pos hk, lookup_cons, hchange e hk, if_neg (Ne.symm hne), lookup_cons, hk,
        if_neg (Ne.symm hne)]
    · rw [upsert, if_neg hk, lookup_cons, lookup_cons, ih]

/-- An entry after an update is the updated one, or was there under another key. -/
theorem KeyUnique.mem_upsert {table : List ε} (h : KeyUnique key table) {e : ε}
    (he : e ∈ Library.upsert key k change fresh table)
    (hchange : ∀ e, key e = k → key (change e) = k) (hfresh : key fresh = k) :
    (key e = k ∧ (lookup key k table).elim fresh change = e) ∨ (key e ≠ k ∧ e ∈ table) := by
  have hfound := ((h.upsert hchange hfresh).mem_iff e).mp he
  by_cases hkey : key e = k
  · rw [hkey, lookup_upsert_self hchange hfresh, Option.some.injEq] at hfound
    exact Or.inl ⟨hkey, hfound⟩
  · rw [lookup_upsert_of_ne hkey hchange hfresh] at hfound
    exact Or.inr ⟨hkey, mem_of_lookup hfound⟩

end Upsert

/-! ### Removal -/

/-- Removing entries restricts the map. -/
theorem KeyUnique.lookup_filter {table : List ε} (h : KeyUnique key table) (p : ε → Bool) (k : κ) :
    lookup key k (table.filter p) = (lookup key k table).filter p := by
  refine Option.ext fun e ↦ ?_
  rw [Option.filter_eq_some_iff]
  constructor
  · intro hkept
    obtain rfl := key_of_lookup hkept
    obtain ⟨hmem, hp⟩ := List.mem_filter.mp (mem_of_lookup hkept)
    exact ⟨(h.mem_iff e).mp hmem, hp⟩
  · rintro ⟨hfound, hp⟩
    obtain rfl := key_of_lookup hfound
    exact ((h.filter p).mem_iff e).mp (List.mem_filter.mpr ⟨mem_of_lookup hfound, hp⟩)

end Tables

/-! ### The least of some values -/

section Least

variable {α : Type*} [LE α]

/-- `least` is the least of the values, or there are none. -/
def LeastOf (values : Set α) (least : Option α) : Prop :=
  least.elim (values = ∅) (IsLeast values)

theorem LeastOf.empty : LeastOf (∅ : Set α) none := rfl

theorem LeastOf.eq_none_iff {values : Set α} {least : Option α} (h : LeastOf values least) :
    least = none ↔ values = ∅ := by
  cases least with
  | none => exact iff_of_true rfl h
  | some best =>
    have hbest : best ∈ values := h.1
    exact iff_of_false (Option.some_ne_none best) (Set.nonempty_iff_ne_empty.mp ⟨best, hbest⟩)

theorem LeastOf.isLeast {values : Set α} {best : α} (h : LeastOf values (some best)) :
    IsLeast values best := h

theorem LeastOf.eq_some_iff [Std.IsLinearOrder α] {values : Set α} {least : Option α}
    (h : LeastOf values least) (v : α) : least = some v ↔ IsLeast values v := by
  cases least with
  | none =>
    obtain rfl : values = ∅ := h
    exact iff_of_false (Option.some_ne_none v).symm fun hleast ↦ hleast.1
  | some best =>
    obtain ⟨hbest, hbound⟩ : IsLeast values best := h
    rw [Option.some.injEq]
    constructor
    · rintro rfl
      exact ⟨hbest, hbound⟩
    · rintro ⟨hv, hbound'⟩
      exact Std.le_antisymm (hbound hv) (hbound' hbest)

variable [LT α] [DecidableLT α] [Std.IsLinearOrder α] [Std.LawfulOrderLT α]

/-- The step of a loop that remembers the least value. -/
theorem LeastOf.insert {values : Set α} {least : Option α} (h : LeastOf values least) (v : α) :
    LeastOf (insert v values) (some (least.elim v fun best ↦ if v < best then v else best)) := by
  cases least with
  | none =>
    obtain rfl : values = ∅ := h
    refine ⟨Set.mem_insert v ∅, fun x hx ↦ ?_⟩
    rw [Set.mem_insert_iff, or_iff_left (Set.notMem_empty x)] at hx
    rw [hx]
    exact Std.le_refl v
  | some best =>
    obtain ⟨hbest, hbound⟩ : IsLeast values best := h
    change IsLeast (Insert.insert v values) (if v < best then v else best)
    split_ifs with hlt
    · refine ⟨Set.mem_insert v values, fun x hx ↦ ?_⟩
      rcases Set.mem_insert_iff.mp hx with rfl | hx
      · exact Std.le_refl x
      · exact Std.le_trans (Std.le_of_lt hlt) (hbound hx)
    · refine ⟨Set.mem_insert_of_mem v hbest, fun x hx ↦ ?_⟩
      rcases Set.mem_insert_iff.mp hx with rfl | hx
      · exact Std.not_lt.mp hlt
      · exact hbound hx

end Least

end VehicleComm.Library
