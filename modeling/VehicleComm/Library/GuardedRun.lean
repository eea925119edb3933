import Mathlib

/-!
# Runs of a partial step function under a guard

A system is a partial step function `step : σ → α → Option σ`: `none` says that the action is not
enabled. A guard is a predicate on the state before a step and the action taken; a run meets the
guard when each of its steps does (`Reaches`). The guard with no demand gives every run.

An invariant is proved once per step and holds along every guarded run (`Reaches.invariant`), and a
guard may be replaced by any guard that follows from it under an invariant (`Reaches.strengthen`).
A list of actions that the step function executes is a run (`reaches_of_run`), so a run on concrete
data is checked by evaluation.
-/

set_option autoImplicit false
set_option relaxedAutoImplicit false

namespace VehicleComm.Library

variable {σ α : Type*} {step : σ → α → Option σ} {guard weaker : σ → α → Prop}

/-- One step taken by an action that meets the guard. -/
def GuardedStep (step : σ → α → Option σ) (guard : σ → α → Prop) (s t : σ) : Prop :=
  ∃ action, guard s action ∧ step s action = some t

/-- `t` is reached from `s` along a run each of whose steps meets the guard. -/
def Reaches (step : σ → α → Option σ) (guard : σ → α → Prop) : σ → σ → Prop :=
  Relation.ReflTransGen (GuardedStep step guard)

/-- The guard with no demand. -/
def Unguarded : σ → α → Prop := fun _ _ ↦ True

instance (s : σ) (action : α) : Decidable (Unguarded s action) := isTrue trivial

theorem Reaches.refl (s : σ) : Reaches step guard s s :=
  Relation.ReflTransGen.refl

theorem Reaches.trans {r s t : σ} (hfirst : Reaches step guard r s)
    (hlast : Reaches step guard s t) : Reaches step guard r t :=
  Relation.ReflTransGen.trans hfirst hlast

theorem Reaches.next {r s t : σ} (hrun : Reaches step guard r s) (action : α)
    (hguard : guard s action) (hstep : step s action = some t) : Reaches step guard r t :=
  Relation.ReflTransGen.tail hrun ⟨action, hguard, hstep⟩

/-- The run rule. Assumes: a property that every guarded step keeps. It holds at the end of every
guarded run that starts in it. -/
theorem Reaches.invariant {P : σ → Prop}
    (hkeep : ∀ s action t, P s → guard s action → step s action = some t → P t)
    {s t : σ} (hrun : Reaches step guard s t) (hstart : P s) : P t := by
  induction hrun with
  | refl => exact hstart
  | tail _ hlast ih =>
    obtain ⟨action, hguard, hstep⟩ := hlast
    exact hkeep _ action _ ih hguard hstep

/-- Assumes: an invariant of the guarded run, under which the guard implies another one. The run
meets the other guard too. -/
theorem Reaches.strengthen {P : σ → Prop}
    (hkeep : ∀ s action t, P s → guard s action → step s action = some t → P t)
    (hguard : ∀ s action, P s → guard s action → weaker s action)
    {s t : σ} (hrun : Reaches step guard s t) (hstart : P s) : Reaches step weaker s t := by
  induction hrun with
  | refl => exact Reaches.refl s
  | tail hbefore hlast ih =>
    obtain ⟨action, hmeets, hstep⟩ := hlast
    have hinv := Reaches.invariant hkeep hbefore hstart
    exact ih.next action (hguard _ action hinv hmeets) hstep

/-- A guard may be weakened along a run. -/
theorem Reaches.mono (hguard : ∀ s action, guard s action → weaker s action) {s t : σ}
    (hrun : Reaches step guard s t) : Reaches step weaker s t :=
  hrun.strengthen (P := fun _ ↦ True) (fun _ _ _ _ _ _ ↦ trivial)
    (fun s action _ hmeets ↦ hguard s action hmeets) trivial

/-- Executes a list of actions, each of which must be enabled and meet the guard. -/
def run (step : σ → α → Option σ) (guard : σ → α → Prop) [∀ s action, Decidable (guard s action)] :
    σ → List α → Option σ
  | s, [] => some s
  | s, action :: rest =>
    if guard s action then (step s action).bind fun t ↦ run step guard t rest else none

/-- A list of actions that executes is a guarded run. -/
theorem reaches_of_run [∀ s action, Decidable (guard s action)] (actions : List α) :
    ∀ {s t : σ}, run step guard s actions = some t → Reaches step guard s t := by
  induction actions with
  | nil =>
    intro s t hrun
    obtain rfl : s = t := by simpa [run] using hrun
    exact Reaches.refl s
  | cons action rest ih =>
    intro s t hrun
    rw [run] at hrun
    split_ifs at hrun with hguard
    obtain ⟨r, hstep, hrest⟩ := Option.bind_eq_some_iff.mp hrun
    exact ((Reaches.refl s).next action hguard hstep).trans (ih hrest)

end VehicleComm.Library
