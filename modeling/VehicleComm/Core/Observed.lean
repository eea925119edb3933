import VehicleComm.Library.GuardedRun
import VehicleComm.Library.ThreadFamily

/-!
# Observers and notifications

`Concurrent_Observed` of `concurrent_observer.h` and `Conditionally_Data_Observed` of
`conditional_data_observer.h`, whose `attach`, `detach` and `notify` are the same: a list of
observers with their conditions behind a mutex, of which `notify` makes a copy, and goes through the
copy without the mutex. Any number of threads `τ` make calls; an observer may make calls of its own
from within `update`, so a thread has a stack of calls. What a call does with the mutex held is one
step, and so are each turn of the loop of `notify` and each return.

`gone` are the entries whose `detach` has returned and that were not attached again since, and
`updates` are the calls of `update` with whether the entry was gone; no step reads them. No call is
late in a run in which no `detach` returns while a notification has the observer ahead of it
(`no_late_update`).
-/

set_option autoImplicit false
set_option relaxedAutoImplicit false

namespace VehicleComm.Core

open Library

variable {ω κ δ τ : Type*}

/-- `Concurrent_Observer_Entry` and `Conditional_Data_Observer_Entry`. -/
structure ObserverEntry (ω κ : Type*) where
  observer : ω
  condition : κ
deriving DecidableEq

/-- Where a call is: `detach` after it erased the entry, and `notify` with the rest of its copy and
whether it has notified somebody. -/
inductive ObservedCall (ω κ δ : Type*)
  | detaching (e : ObserverEntry ω κ)
  | notifying (c : κ) (d : δ) (rest : List (ObserverEntry ω κ)) (notified : Bool)

/-- The call is going to call `update` for the entry. -/
def ObservedCall.Awaits (e : ObserverEntry ω κ) : ObservedCall ω κ δ → Prop
  | .detaching _ => False
  | .notifying c _ rest _ => e ∈ rest ∧ e.condition = c

instance [DecidableEq ω] [DecidableEq κ] (e : ObserverEntry ω κ) (call : ObservedCall ω κ δ) :
    Decidable (call.Awaits e) := by
  cases call with
  | detaching _ => exact isFalse id
  | notifying c d rest notified => exact inferInstanceAs (Decidable (_ ∧ _))

/-- A thread may make a call when it is in none, or within an `update`. -/
def mayCall : List (ObservedCall ω κ δ) → Bool
  | .detaching _ :: _ => false
  | _ => true

/-- A call of `update`. -/
structure UpdateCall (ω κ δ : Type*) where
  entry : ObserverEntry ω κ
  data : δ
  late : Bool

/-- The observers, the calls of every thread with the innermost first, and the record. -/
structure Observed (ω κ δ τ : Type*) where
  observers : List (ObserverEntry ω κ)
  calls : τ → List (ObservedCall ω κ δ)
  gone : List (ObserverEntry ω κ)
  updates : List (UpdateCall ω κ δ)

/-- One step of a thread: a call of one of the functions up to the release of the mutex, or the next
step of the innermost call. -/
inductive ObservedAction (ω κ δ τ : Type*)
  | attach (w : τ) (o : ω) (c : κ)
  | detach (w : τ) (o : ω) (c : κ)
  | notify (w : τ) (c : κ) (d : δ)
  | proceed (w : τ)

namespace Observed

def initial (ω κ δ τ : Type*) : Observed ω κ δ τ := ⟨[], fun _ ↦ [], [], []⟩

/-- When a `detach` returns whose entry was not attached again, no notification has the observer
ahead of it. -/
def Quiet (s : Observed ω κ δ τ) : ObservedAction ω κ δ τ → Prop
  | .proceed w =>
    match s.calls w with
    | .detaching e :: _ => e ∈ s.observers ∨ ∀ v, ∀ call ∈ s.calls v, ¬call.Awaits e
    | _ => True
  | _ => True

section Step

variable [DecidableEq ω] [DecidableEq κ] [DecidableEq τ]

def proceed (s : Observed ω κ δ τ) (w : τ) (outer : List (ObservedCall ω κ δ)) :
    ObservedCall ω κ δ → Observed ω κ δ τ
  | .detaching e =>
    { s with
      calls := Function.update s.calls w outer
      gone := if e ∈ s.observers then s.gone else e :: s.gone }
  | .notifying _ _ [] _ => { s with calls := Function.update s.calls w outer }
  | .notifying c d (e :: rest) notified =>
    if e.condition = c then
      { s with
        calls := Function.update s.calls w (.notifying c d rest true :: outer)
        updates := s.updates ++ [⟨e, d, e ∈ s.gone⟩] }
    else { s with calls := Function.update s.calls w (.notifying c d rest notified :: outer) }

def step (s : Observed ω κ δ τ) : ObservedAction ω κ δ τ → Option (Observed ω κ δ τ)
  | .attach w o c =>
    if mayCall (s.calls w) then
      some { s with
        observers := s.observers ++ [⟨o, c⟩]
        gone := s.gone.filter fun e ↦ e ≠ ⟨o, c⟩ }
    else none
  | .detach w o c =>
    if mayCall (s.calls w) then
      some { s with
        observers := s.observers.filter fun e ↦ ¬(e.observer = o ∧ e.condition = c)
        calls := Function.update s.calls w (.detaching ⟨o, c⟩ :: s.calls w) }
    else none
  | .notify w c d =>
    if mayCall (s.calls w) then
      some { s with
        calls := Function.update s.calls w (.notifying c d s.observers false :: s.calls w) }
    else none
  | .proceed w =>
    match s.calls w with
    | [] => none
    | call :: outer => some (s.proceed w outer call)

end Step

instance [DecidableEq ω] [DecidableEq κ] [Fintype τ] (s : Observed ω κ δ τ)
    (action : ObservedAction ω κ δ τ) : Decidable (s.Quiet action) := by
  cases action with
  | proceed w =>
    rw [Quiet]
    split <;> infer_instance
  | attach w o c => exact isTrue trivial
  | detach w o c => exact isTrue trivial
  | notify w c d => exact isTrue trivial

/-! ### The invariant -/

/-- What holds between any two steps: nothing that is gone is attached or ahead of a notification.
-/
structure Sound (s : Observed ω κ δ τ) : Prop where
  observers : ∀ e ∈ s.observers, e ∉ s.gone
  calls : ∀ v, ∀ call ∈ s.calls v, ∀ e, call.Awaits e → e ∉ s.gone
  updates : ∀ u ∈ s.updates, u.late = false

theorem sound_initial : (initial ω κ δ τ).Sound where
  observers := fun _ he ↦ absurd he List.not_mem_nil
  calls := fun _ _ hcall ↦ absurd hcall List.not_mem_nil
  updates := fun _ hu ↦ absurd hu List.not_mem_nil

variable [DecidableEq ω] [DecidableEq κ] [DecidableEq τ] {s : Observed ω κ δ τ}

omit [DecidableEq ω] [DecidableEq κ] in
/-- A step that changes the stack of one thread keeps what the others await. -/
theorem Sound.update_calls (h : s.Sound) (w : τ) {stack : List (ObservedCall ω κ δ)}
    (hstack : ∀ call ∈ stack, ∀ e, call.Awaits e → e ∉ s.gone) :
    ∀ v, ∀ call ∈ Function.update s.calls w stack v, ∀ e, call.Awaits e → e ∉ s.gone := by
  intro v call hcall
  by_cases hv : v = w
  · rw [hv, Function.update_self] at hcall
    exact hstack call hcall
  · rw [Function.update_of_ne hv] at hcall
    exact h.calls v call hcall

omit [DecidableEq τ] in
theorem Sound.attach (h : s.Sound) (o : ω) (c : κ) :
    { s with
      observers := s.observers ++ [ObserverEntry.mk o c]
      gone := s.gone.filter fun e ↦ e ≠ ObserverEntry.mk o c }.Sound where
  observers := by
    intro e he hgone
    obtain ⟨hwas, hne⟩ := List.mem_filter.mp hgone
    rcases List.mem_append.mp he with he | he
    · exact h.observers e he hwas
    · exact of_decide_eq_true hne (List.mem_singleton.mp he)
  calls := fun v call hcall e hawaits hgone ↦
    h.calls v call hcall e hawaits (List.mem_of_mem_filter hgone)
  updates := h.updates

theorem Sound.detach (h : s.Sound) (w : τ) (o : ω) (c : κ) :
    { s with
      observers := s.observers.filter fun e ↦ ¬(e.observer = o ∧ e.condition = c)
      calls := Function.update s.calls w (.detaching ⟨o, c⟩ :: s.calls w) }.Sound where
  observers := fun e he ↦ h.observers e (List.mem_of_mem_filter he)
  calls := by
    refine h.update_calls w fun call hcall e hawaits ↦ ?_
    rcases List.mem_cons.mp hcall with rfl | hcall
    · exact hawaits.elim
    · exact h.calls w call hcall e hawaits
  updates := h.updates

omit [DecidableEq ω] [DecidableEq κ] in
/-- The copy has no entry that is gone. -/
theorem Sound.notify (h : s.Sound) (w : τ) (c : κ) (d : δ) :
    { s with
      calls := Function.update s.calls w
        (.notifying c d s.observers false :: s.calls w) }.Sound where
  observers := h.observers
  calls := by
    refine h.update_calls w fun call hcall e hawaits ↦ ?_
    rcases List.mem_cons.mp hcall with rfl | hcall
    · exact h.observers e hawaits.1
    · exact h.calls w call hcall e hawaits
  updates := h.updates

theorem Sound.proceed (h : s.Sound) {w : τ} {call : ObservedCall ω κ δ}
    {outer : List (ObservedCall ω κ δ)} (hcalls : s.calls w = call :: outer)
    (hquiet : s.Quiet (.proceed w)) : (s.proceed w outer call).Sound := by
  have houter : ∀ call ∈ outer, ∀ e, call.Awaits e → e ∉ s.gone :=
    fun call hcall ↦ h.calls w call (hcalls ▸ List.mem_cons_of_mem _ hcall)
  cases call with
  | detaching e =>
    rw [Observed.proceed]
    have hrest := h.update_calls w houter
    by_cases hagain : e ∈ s.observers
    · rw [if_pos hagain]
      exact ⟨h.observers, hrest, h.updates⟩
    · rw [if_neg hagain]
      rw [Quiet, hcalls] at hquiet
      have hnobody := hquiet.resolve_left hagain
      refine ⟨fun x hx hgone ↦ ?_, fun v call hcall x hawaits hgone ↦ ?_, h.updates⟩
      · rcases List.mem_cons.mp hgone with rfl | hgone
        · exact hagain hx
        · exact h.observers x hx hgone
      · rcases List.mem_cons.mp hgone with rfl | hgone
        · refine hnobody v call ?_ hawaits
          by_cases hv : v = w
          · subst hv
            rw [hcalls]
            exact List.mem_cons_of_mem _ (by simpa using hcall)
          · simpa [hv] using hcall
        · exact hrest v call hcall x hawaits hgone
  | notifying c d rest notified =>
    have hself := h.calls w _ (hcalls ▸ List.mem_cons_self)
    cases rest with
    | nil => exact ⟨h.observers, h.update_calls w houter, h.updates⟩
    | cons e rest =>
      have hahead : ∀ result, ∀ call ∈ ObservedCall.notifying c d rest result :: outer, ∀ x,
          call.Awaits x → x ∉ s.gone := by
        intro result call hcall x hawaits
        rcases List.mem_cons.mp hcall with rfl | hcall
        · exact hself x ⟨List.mem_cons_of_mem e hawaits.1, hawaits.2⟩
        · exact houter call hcall x hawaits
      rw [Observed.proceed]
      split_ifs with hcondition
      · refine ⟨h.observers, h.update_calls w (hahead true), fun u hu ↦ ?_⟩
        rcases List.mem_append.mp hu with hu | hu
        · exact h.updates u hu
        · rw [List.mem_singleton.mp hu]
          exact decide_eq_false (hself e ⟨List.mem_cons_self, hcondition⟩)
      · exact ⟨h.observers, h.update_calls w (hahead notified), h.updates⟩

theorem Sound.step {t : Observed ω κ δ τ} {action : ObservedAction ω κ δ τ} (h : s.Sound)
    (hquiet : s.Quiet action) (hstep : s.step action = some t) : t.Sound := by
  cases action with
  | attach w o c =>
    rw [Observed.step] at hstep
    split_ifs at hstep
    obtain rfl := Option.some.inj hstep
    exact h.attach o c
  | detach w o c =>
    rw [Observed.step] at hstep
    split_ifs at hstep
    obtain rfl := Option.some.inj hstep
    exact h.detach w o c
  | notify w c d =>
    rw [Observed.step] at hstep
    split_ifs at hstep
    obtain rfl := Option.some.inj hstep
    exact h.notify w c d
  | proceed w =>
    rw [Observed.step] at hstep
    split at hstep
    · cases hstep
    · rename_i call outer hcalls
      obtain rfl := Option.some.inj hstep
      exact h.proceed hcalls hquiet

/-- Assumes: a run in which no `detach` returns while a notification with its condition has the
observer ahead of it in the list that it copied. No `update` is called on an observer whose `detach`
has returned and that was not attached again. -/
theorem no_late_update (hrun : Reaches step Quiet (initial ω κ δ τ) s) :
    ∀ u ∈ s.updates, u.late = false :=
  (hrun.invariant (P := Sound) (fun _ _ _ h hquiet hstep ↦ h.step hquiet hstep)
    sound_initial).updates

/-- An observer is detached between the copy of a notification and its turn. -/
def overtakenActions : List (ObservedAction ℕ ℕ ℕ Bool) :=
  [.attach true 1 9, .notify false 9 5, .detach true 1 9, .proceed true, .proceed false]

/-- The observer is updated after its `detach` has returned. -/
theorem updated_late :
    ∃ s, Reaches step Unguarded (initial ℕ ℕ ℕ Bool) s ∧ ∃ u ∈ s.updates, u.late = true := by
  have hrun : (run step Unguarded (initial ℕ ℕ ℕ Bool) overtakenActions).map (fun s ↦
      s.updates.map UpdateCall.late) = some [true] := by decide +kernel
  obtain ⟨s, hs, hupdates⟩ := Option.map_eq_some_iff.mp hrun
  obtain ⟨u, hu, hlate⟩ := List.mem_map.mp (hupdates ▸ List.mem_singleton.mpr rfl)
  exact ⟨s, reaches_of_run overtakenActions hs, u, hu, hlate⟩

/-- Two observers, one of which is detached by the other from within its `update`, behind the turn
of the one that goes. -/
def nestedActions : List (ObservedAction ℕ ℕ ℕ Bool) :=
  [.attach true 1 9, .attach true 2 9, .notify false 9 5, .proceed false, .proceed false,
    .detach false 1 9, .proceed false, .proceed false, .notify true 9 6, .proceed true,
    .proceed true]

theorem no_late_update_nestedActions :
    ∃ s, run step Quiet (initial ℕ ℕ ℕ Bool) nestedActions = some s ∧ s.updates.length = 3 ∧
      ∀ u ∈ s.updates, u.late = false := by
  have hrun : (run step Quiet (initial ℕ ℕ ℕ Bool) nestedActions).map (fun s ↦
      s.updates.length) = some 3 := by decide +kernel
  obtain ⟨s, hs, hlength⟩ := Option.map_eq_some_iff.mp hrun
  exact ⟨s, hs, hlength, no_late_update (reaches_of_run nestedActions hs)⟩

end Observed

end VehicleComm.Core
