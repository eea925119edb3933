import VehicleComm.Library.GuardedRun

/-!
# Runs that come to an end

When every guarded step from a state in which an invariant holds uses up some of a quantity of work
(`Exhausting`), a run from such a state has no more steps than there was work
(`Exhausting.add_work_le`), and wherever it has come to, it can be continued to a state in which no
guarded action is enabled (`Exhausting.exists_stuck`). What such a state looks like is a matter of
the system: a proof that it is a good one is a proof that the system cannot deadlock.
-/

set_option autoImplicit false
set_option relaxedAutoImplicit false

namespace VehicleComm.Library

variable {σ α : Type*} {step : σ → α → Option σ} {guard : σ → α → Prop} {P : σ → Prop}
  {work : σ → ℕ}

/-- No action that meets the guard is enabled. -/
def Stuck (step : σ → α → Option σ) (guard : σ → α → Prop) (s : σ) : Prop :=
  ∀ action, guard s action → step s action = none

/-- `t` is reached from `s` along a run of a number of steps, each of which meets the guard. -/
inductive ReachesIn (step : σ → α → Option σ) (guard : σ → α → Prop) : ℕ → σ → σ → Prop
  | refl (s : σ) : ReachesIn step guard 0 s s
  | next {n : ℕ} {r s t : σ} (action : α) : ReachesIn step guard n r s → guard s action →
      step s action = some t → ReachesIn step guard (n + 1) r t

theorem ReachesIn.reaches {n : ℕ} {s t : σ} (hrun : ReachesIn step guard n s t) :
    Reaches step guard s t := by
  induction hrun with
  | refl s => exact Reaches.refl s
  | next action _ hguard hstep ih => exact ih.next action hguard hstep

/-- The invariant is kept, and a step leaves less work than there was. -/
structure Exhausting (step : σ → α → Option σ) (guard : σ → α → Prop) (P : σ → Prop)
    (work : σ → ℕ) : Prop where
  keeps : ∀ s action t, P s → guard s action → step s action = some t → P t
  uses : ∀ s action t, P s → guard s action → step s action = some t → work t < work s

/-- The steps of a run and the work left at its end are at most the work there was. -/
theorem Exhausting.add_work_le (h : Exhausting step guard P work) {n : ℕ} {s t : σ} (hs : P s)
    (hrun : ReachesIn step guard n s t) : n + work t ≤ work s := by
  induction hrun with
  | refl s => exact (Nat.zero_add _).le
  | @next n r s t action hbefore hguard hstep ih =>
    have hinv : P s := hbefore.reaches.invariant h.keeps hs
    have hless := h.uses s action t hinv hguard hstep
    have hsofar := ih hs
    omega

/-- A state from which there is nothing more to do can be reached. -/
theorem Exhausting.exists_stuck (h : Exhausting step guard P work) {s : σ} (hs : P s) :
    ∃ t, Reaches step guard s t ∧ Stuck step guard t := by
  induction hwork : work s using Nat.strong_induction_on generalizing s with
  | _ n ih =>
    by_cases hstuck : Stuck step guard s
    · exact ⟨s, Reaches.refl s, hstuck⟩
    · unfold Stuck at hstuck
      push Not at hstuck
      obtain ⟨action, hguard, henabled⟩ := hstuck
      obtain ⟨next, hstep⟩ := Option.ne_none_iff_exists'.mp henabled
      have hless := h.uses s action next hs hguard hstep
      obtain ⟨t, hrest, hend⟩ :=
        ih (work next) (hwork ▸ hless) (h.keeps s action next hs hguard hstep) rfl
      exact ⟨t, ((Reaches.refl s).next action hguard hstep).trans hrest, hend⟩

end VehicleComm.Library
