import VehicleComm.Library.GuardedRun
import VehicleComm.Library.ThreadFamily

/-!
# The queue of an observer

`Concurrent_Observer` of `concurrent_observer.h` over `Semaphore` of `posix_semaphore.h`: any number
of threads `τ` call `update`, which pushes a pointer and posts the semaphore with the mutex held,
and `updated`, which waits for the semaphore, with or without a timeout, and pops under the mutex.
Every step on the mutex, the semaphore or the queue is a step of its own; a signal may interrupt a
wait and a timeout may expire at any moment of one.

`p_for` goes back to the wait after a signal, `p` does not look at the result of the wait and goes
on without a token. What was pushed, how many pointers have come out and what each `updated`
returned are kept for the record; the pointers are numbered in the order they were pushed.

In a run in which no signal interrupts a wait without a timeout and the semaphore stays below its
greatest value nothing is lost (`nothing_lost`).
-/

set_option autoImplicit false
set_option relaxedAutoImplicit false

namespace VehicleComm.Core

open Library

/-- `SEM_VALUE_MAX`. -/
def semValueMax : ℕ := 2147483647

/-- `sem_post`, which fails and leaves the value alone at the greatest one. -/
def semPost (value : ℕ) : ℕ := if value < semValueMax then value + 1 else value

variable {δ τ : Type*}

/-- Where a call of `update` or of `updated` is. The calls of `updated` know whether they have a
timeout; a call on its way out has what it returns. -/
inductive QueueCall (δ : Type*)
  | pushLocking (d : δ)
  | pushing (d : δ)
  | posting
  | unlocking
  | waiting (timed : Bool)
  | popLocking (timed : Bool)
  | popping (timed : Bool)
  | leaving (timed timedOut : Bool) (taken : Option (ℕ × δ))

def QueueCall.locked : QueueCall δ → Bool
  | .pushing _ | .posting | .unlocking | .popping _ => true
  | .leaving _ timedOut _ => !timedOut
  | _ => false

/-- The tokens that a call is to post, or has taken for a pointer that it is to pop. -/
def pendingTokens : Option (QueueCall δ) → ℕ
  | some .posting | some (.popLocking _) | some (.popping _) => 1
  | _ => 0

/-- What a call of `updated` returned: `none` is the null pointer, a pointer comes with its
number. -/
structure Taken (δ : Type*) where
  timed : Bool
  timedOut : Bool
  taken : Option (ℕ × δ)

/-- A `Concurrent_Observer` with the calls in progress, the mutex, and the record. -/
structure ObserverQueue (δ τ : Type*) where
  value : ℕ
  owner : Option τ
  queue : List δ
  calls : τ → Option (QueueCall δ)
  pushed : List δ
  popped : ℕ
  returned : List (Taken δ)

inductive QueueAction (δ τ : Type*)
  | update (w : τ) (d : δ)
  | updated (w : τ) (timed : Bool)
  | proceed (w : τ)
  | interrupt (w : τ)
  | expire (w : τ)

namespace ObserverQueue

def initial (δ τ : Type*) : ObserverQueue δ τ := ⟨0, none, [], fun _ ↦ none, [], 0, []⟩

section Step

variable [DecidableEq τ]

def moveTo (s : ObserverQueue δ τ) (w : τ) (call : Option (QueueCall δ)) : ObserverQueue δ τ :=
  { s with calls := Function.update s.calls w call }

def proceed (s : ObserverQueue δ τ) (w : τ) : QueueCall δ → Option (ObserverQueue δ τ)
  | .pushLocking d =>
    if s.owner = none then some { s.moveTo w (some (.pushing d)) with owner := some w } else none
  | .pushing d =>
    some { s.moveTo w (some .posting) with
      queue := s.queue ++ [d]
      pushed := s.pushed ++ [d] }
  | .posting => some { s.moveTo w (some .unlocking) with value := semPost s.value }
  | .unlocking => some { s.moveTo w none with owner := none }
  | .waiting timed =>
    if 0 < s.value then
      some { s.moveTo w (some (.popLocking timed)) with value := s.value - 1 }
    else none
  | .popLocking timed =>
    if s.owner = none then some { s.moveTo w (some (.popping timed)) with owner := some w }
    else none
  | .popping timed =>
    match s.queue with
    | [] => some (s.moveTo w (some (.leaving timed false none)))
    | d :: rest =>
      some { s.moveTo w (some (.leaving timed false (some (s.popped, d)))) with
        queue := rest
        popped := s.popped + 1 }
  | .leaving timed timedOut taken =>
    some { s.moveTo w none with
      owner := if timedOut then s.owner else none
      returned := s.returned ++ [⟨timed, timedOut, taken⟩] }

/-- The step function. A call whose wait times out returns before it takes the mutex. -/
def step (s : ObserverQueue δ τ) : QueueAction δ τ → Option (ObserverQueue δ τ)
  | .update w d =>
    match s.calls w with
    | none => some (s.moveTo w (some (.pushLocking d)))
    | some _ => none
  | .updated w timed =>
    match s.calls w with
    | none => some (s.moveTo w (some (.waiting timed)))
    | some _ => none
  | .proceed w =>
    match s.calls w with
    | none => none
    | some call => s.proceed w call
  | .interrupt w =>
    match s.calls w with
    | some (.waiting true) => some s
    | some (.waiting false) => some (s.moveTo w (some (.popLocking false)))
    | _ => none
  | .expire w =>
    match s.calls w with
    | some (.waiting true) => some (s.moveTo w (some (.leaving true true none)))
    | _ => none

end Step

/-- No signal interrupts a wait without a timeout, and no post meets the greatest value of the
semaphore. -/
def Regular (s : ObserverQueue δ τ) : QueueAction δ τ → Prop
  | .interrupt w =>
    match s.calls w with
    | some (.waiting false) => False
    | _ => True
  | .proceed w =>
    match s.calls w with
    | some .posting => s.value < semValueMax
    | _ => True
  | _ => True

instance (s : ObserverQueue δ τ) (action : QueueAction δ τ) : Decidable (s.Regular action) := by
  cases action with
  | update w d => exact isTrue trivial
  | updated w timed => exact isTrue trivial
  | proceed w =>
    rw [Regular]
    split <;> infer_instance
  | interrupt w =>
    rw [Regular]
    split <;> infer_instance
  | expire w => exact isTrue trivial

/-! ### The invariant -/

/-- What a call of `updated` returns: the null pointer only after its timeout, or the pointer that
came out last, which is not the first with its number. -/
def ResultSound (s : ObserverQueue δ τ) (timed timedOut : Bool) : Option (ℕ × δ) → Prop
  | none => timed = true ∧ timedOut = true
  | some (n, d) =>
    timedOut = false ∧ n + 1 = s.popped ∧ s.pushed[n]? = some d ∧
      ∀ r ∈ s.returned, ∀ m e, r.taken = some (m, e) → m < n

def CallSound (s : ObserverQueue δ τ) (w : τ) (call : QueueCall δ) : Prop :=
  (call.locked = true → s.owner = some w) ∧
    ∀ timed timedOut taken, call = .leaving timed timedOut taken →
      s.ResultSound timed timedOut taken

def number (r : Taken δ) : Option ℕ := r.taken.map Prod.fst

def ReturnSound (s : ObserverQueue δ τ) (r : Taken δ) : Prop :=
  match r.taken with
  | none => r.timed = true ∧ r.timedOut = true
  | some (n, d) => n < s.popped ∧ s.pushed[n]? = some d

variable [Fintype τ]

structure Sound (s : ObserverQueue δ τ) : Prop where
  calls : ∀ w call, s.calls w = some call → s.CallSound w call
  balance : s.value + tally pendingTokens s.calls = s.queue.length
  queue : s.queue = s.pushed.drop s.popped
  popped : s.popped ≤ s.pushed.length
  returned : ∀ r ∈ s.returned, s.ReturnSound r
  numbers : (s.returned.filterMap number).Nodup

theorem sound_initial : (initial δ τ).Sound where
  calls := fun w call h ↦ by cases h
  balance := by
    have htally : tally pendingTokens (initial δ τ).calls = 0 := tally_eq_zero_iff.mpr fun _ ↦ rfl
    rw [htally]
    rfl
  queue := rfl
  popped := Nat.zero_le _
  returned := fun r hr ↦ absurd hr List.not_mem_nil
  numbers := List.nodup_nil

omit [Fintype τ] in
/-- A call without the mutex is on its way in, or on its way out with the null pointer. -/
theorem CallSound.of_unlocked {s t : ObserverQueue δ τ} {w : τ} {call : QueueCall δ}
    (h : s.CallSound w call) (hnot : call.locked = false) : t.CallSound w call := by
  refine ⟨fun hlocked ↦ (by rw [hnot] at hlocked; cases hlocked), ?_⟩
  rintro timed timedOut taken rfl
  have hresult := h.2 timed timedOut taken rfl
  have htimedOut : timedOut = true := by simpa [QueueCall.locked] using hnot
  cases taken with
  | none => exact hresult
  | some entry =>
    obtain ⟨n, d⟩ := entry
    rw [hresult.1] at htimedOut
    cases htimedOut

omit [Fintype τ] in
/-- While one thread has the mutex, or nobody has it, no call of another thread has it. -/
theorem CallSound.of_owner {s t : ObserverQueue δ τ} {w : τ} {call : QueueCall δ}
    (h : s.CallSound w call) (howner : s.owner ≠ some w) : t.CallSound w call := by
  refine h.of_unlocked ?_
  by_contra hlocked
  exact howner (h.1 (by simpa using hlocked))

section Preservation

variable [DecidableEq τ] {s : ObserverQueue δ τ} {w : τ} {old : Option (QueueCall δ)}

omit [Fintype τ] in
/-- The calls after a step of one of them. -/
theorem calls_of_update {t : ObserverQueue δ τ} {k : Option (QueueCall δ)}
    (hcalls : t.calls = Function.update s.calls w k)
    (hself : ∀ c, k = some c → t.CallSound w c)
    (hothers : ∀ v c, v ≠ w → s.calls v = some c → t.CallSound v c) :
    ∀ v c, t.calls v = some c → t.CallSound v c := by
  intro v c hc
  rw [hcalls] at hc
  rcases eq_some_of_update hc with ⟨hv, hnew⟩ | ⟨hv, hold⟩
  · rw [hv]
    exact hself c hnew
  · exact hothers v c hv hold

/-- A call goes on without a token and without touching the queue. -/
theorem Sound.moveTo (h : s.Sound) {k : Option (QueueCall δ)}
    (htokens : pendingTokens k = pendingTokens (s.calls w))
    (hself : ∀ c, k = some c → s.CallSound w c) : (s.moveTo w k).Sound where
  calls := calls_of_update rfl hself fun v c _ hc ↦ h.calls v c hc
  balance := by
    have hbalance := h.balance
    have htally : tally pendingTokens (s.moveTo w k).calls = tally pendingTokens s.calls :=
      tally_update_of_eq htokens
    rw [htally]
    exact hbalance
  queue := h.queue
  popped := h.popped
  returned := h.returned
  numbers := h.numbers

/-- A call takes the mutex when nobody has it. -/
theorem Sound.lock (h : s.Sound) (howner : s.owner = none) {call : QueueCall δ}
    (htokens : pendingTokens (some call) = pendingTokens (s.calls w))
    (hcall : ∀ timed timedOut taken, call ≠ .leaving timed timedOut taken) :
    { s.moveTo w (some call) with owner := some w }.Sound where
  calls := by
    refine calls_of_update (k := some call) rfl (fun c hc ↦ ?_) (fun v c hv hc ↦ ?_)
    · obtain rfl := Option.some.inj hc
      exact ⟨fun _ ↦ rfl, fun timed timedOut taken hleaving ↦ absurd hleaving (hcall _ _ _)⟩
    · refine (h.calls v c hc).of_owner ?_
      rw [howner]
      exact (Option.some_ne_none v).symm
  balance := by
    have hbalance := h.balance
    have htally : tally pendingTokens (Function.update s.calls w (some call)) =
      tally pendingTokens s.calls := tally_update_of_eq htokens
    show s.value + tally pendingTokens (Function.update s.calls w (some call)) = s.queue.length
    rw [htally]
    exact hbalance
  queue := h.queue
  popped := h.popped
  returned := h.returned
  numbers := h.numbers

/-- The pointer is pushed; its token is to be posted. -/
theorem Sound.push (h : s.Sound) {d : δ} (hcall : s.calls w = some (.pushing d)) :
    { s.moveTo w (some .posting) with
      queue := s.queue ++ [d]
      pushed := s.pushed ++ [d] }.Sound := by
  have howner : s.owner = some w := (h.calls w _ hcall).1 rfl
  refine ⟨calls_of_update (s := s) (w := w) (k := some .posting) rfl (fun c hc ↦ ?_)
    (fun v c hv hc ↦ ?_), ?_, ?_, ?_, fun r hr ↦ ?_, h.numbers⟩
  · obtain rfl := Option.some.inj hc
    exact ⟨fun _ ↦ howner, fun timed timedOut taken hleaving ↦ (by cases hleaving)⟩
  · refine (h.calls v c hc).of_owner ?_
    rw [howner]
    exact fun heq ↦ hv (Option.some.inj heq).symm
  · have hbalance := h.balance
    have htally := tally_update pendingTokens s.calls w (some .posting)
    rw [hcall] at htally
    show s.value + tally pendingTokens (Function.update s.calls w (some .posting)) =
      (s.queue ++ [d]).length
    rw [List.length_append, List.length_singleton]
    simp only [pendingTokens] at htally
    omega
  · show s.queue ++ [d] = (s.pushed ++ [d]).drop s.popped
    rw [h.queue, List.drop_append_of_le_length h.popped]
  · show s.popped ≤ (s.pushed ++ [d]).length
    rw [List.length_append]
    exact Nat.le_add_right_of_le h.popped
  · have hreturned := h.returned r hr
    unfold ReturnSound at hreturned ⊢
    split at hreturned
    · exact hreturned
    · rename_i n e htaken
      refine ⟨hreturned.1, ?_⟩
      rw [List.getElem?_append_left (List.getElem?_eq_some_iff.mp hreturned.2).1]
      exact hreturned.2

/-- A token that was to be posted is posted. -/
theorem Sound.post (h : s.Sound) (hcall : s.calls w = some .posting)
    (hbelow : s.value < semValueMax) :
    { s.moveTo w (some .unlocking) with value := semPost s.value }.Sound := by
  have howner : s.owner = some w := (h.calls w _ hcall).1 rfl
  refine ⟨calls_of_update (s := s) (w := w) (k := some .unlocking) rfl (fun c hc ↦ ?_)
    (fun v c _ hc ↦ h.calls v c hc), ?_, h.queue, h.popped, h.returned, h.numbers⟩
  · obtain rfl := Option.some.inj hc
    exact ⟨fun _ ↦ howner, fun timed timedOut taken hleaving ↦ (by cases hleaving)⟩
  · have hbalance := h.balance
    have htally := tally_update pendingTokens s.calls w (some .unlocking)
    rw [hcall] at htally
    show semPost s.value + tally pendingTokens (Function.update s.calls w (some .unlocking)) =
      s.queue.length
    rw [semPost, if_pos hbelow]
    simp only [pendingTokens] at htally
    omega

/-- `update` gives the mutex back. -/
theorem Sound.unlock (h : s.Sound) (hcall : s.calls w = some .unlocking) :
    { s.moveTo w none with owner := none }.Sound := by
  have howner : s.owner = some w := (h.calls w _ hcall).1 rfl
  have hnone := h.moveTo (k := none) (w := w) (by rw [hcall]; rfl) (fun c hc ↦ (by cases hc))
  refine ⟨calls_of_update (s := s) (w := w) (k := none) rfl (fun c hc ↦ (by cases hc))
    (fun v c hv hc ↦ ?_), hnone.balance, h.queue, h.popped, h.returned, h.numbers⟩
  refine (h.calls v c hc).of_owner ?_
  rw [howner]
  exact fun heq ↦ hv (Option.some.inj heq).symm

/-- A wait takes a token. -/
theorem Sound.wait (h : s.Sound) {timed : Bool} (hcall : s.calls w = some (.waiting timed))
    (hvalue : 0 < s.value) :
    { s.moveTo w (some (.popLocking timed)) with value := s.value - 1 }.Sound := by
  refine ⟨calls_of_update (s := s) (w := w) (k := some (.popLocking timed)) rfl (fun c hc ↦ ?_)
    (fun v c _ hc ↦ h.calls v c hc), ?_, h.queue, h.popped, h.returned, h.numbers⟩
  · obtain rfl := Option.some.inj hc
    exact ⟨fun hlocked ↦ (by cases hlocked), fun _ timedOut taken hleaving ↦ (by cases hleaving)⟩
  · have hbalance := h.balance
    have htally := tally_update pendingTokens s.calls w (some (.popLocking timed))
    rw [hcall] at htally
    show s.value - 1 + tally pendingTokens (Function.update s.calls w (some (.popLocking timed))) =
      s.queue.length
    simp only [pendingTokens] at htally
    omega

omit [DecidableEq τ] in
/-- A call with a token finds a pointer. -/
theorem Sound.queue_ne_nil (h : s.Sound) {timed : Bool}
    (hcall : s.calls w = some (.popping timed)) : s.queue ≠ [] := by
  have hbalance := h.balance
  have htoken : pendingTokens (s.calls w) ≤ tally pendingTokens s.calls := cost_le_tally w
  rw [hcall] at htoken
  simp only [pendingTokens] at htoken
  intro hempty
  rw [hempty, List.length_nil] at hbalance
  omega

/-- The first pointer comes out. -/
theorem Sound.pop (h : s.Sound) {timed : Bool} (hcall : s.calls w = some (.popping timed)) {d : δ}
    {rest : List δ} (hqueue : s.queue = d :: rest) :
    { s.moveTo w (some (.leaving timed false (some (s.popped, d)))) with
      queue := rest
      popped := s.popped + 1 }.Sound := by
  have howner : s.owner = some w := (h.calls w _ hcall).1 rfl
  have hdrop : s.pushed.drop s.popped = d :: rest := h.queue.symm.trans hqueue
  have hfirst : s.pushed[s.popped]? = some d := by
    rw [← List.head?_drop, hdrop, List.head?_cons]
  have hrest : s.pushed.drop (s.popped + 1) = rest := by
    rw [← List.drop_drop, hdrop, List.drop_one, List.tail_cons]
  refine ⟨calls_of_update (s := s) (w := w)
    (k := some (.leaving timed false (some (s.popped, d)))) rfl (fun c hc ↦ ?_)
    (fun v c hv hc ↦ ?_), ?_, hrest.symm, ?_, fun r hr ↦ ?_, h.numbers⟩
  · obtain rfl := Option.some.inj hc
    refine ⟨fun _ ↦ howner, fun _ _ _ hleaving ↦ ?_⟩
    obtain ⟨rfl, rfl, rfl⟩ := QueueCall.leaving.inj hleaving
    refine ⟨rfl, rfl, hfirst, fun r hr m e htaken ↦ ?_⟩
    have hreturned := h.returned r hr
    unfold ReturnSound at hreturned
    rw [htaken] at hreturned
    exact hreturned.1
  · refine (h.calls v c hc).of_owner ?_
    rw [howner]
    exact fun heq ↦ hv (Option.some.inj heq).symm
  · have hbalance := h.balance
    have htally := tally_update pendingTokens s.calls w
      (some (.leaving timed false (some (s.popped, d))))
    rw [hcall] at htally
    rw [hqueue, List.length_cons] at hbalance
    show s.value + tally pendingTokens (Function.update s.calls w _) = rest.length
    simp only [pendingTokens] at htally
    omega
  · exact (List.getElem?_eq_some_iff.mp hfirst).1
  · have hreturned := h.returned r hr
    unfold ReturnSound at hreturned ⊢
    split at hreturned
    · exact hreturned
    · exact ⟨Nat.lt_succ_of_lt hreturned.1, hreturned.2⟩

/-- `updated` returns. -/
theorem Sound.leave (h : s.Sound) {timed timedOut : Bool} {taken : Option (ℕ × δ)}
    (hcall : s.calls w = some (.leaving timed timedOut taken)) :
    { s.moveTo w none with
      owner := if timedOut then s.owner else none
      returned := s.returned ++ [Taken.mk timed timedOut taken] }.Sound := by
  obtain ⟨howner, hresult⟩ := h.calls w _ hcall
  have hresult := hresult timed timedOut taken rfl
  have hnone := h.moveTo (k := none) (w := w) (by rw [hcall]; rfl) (fun c hc ↦ (by cases hc))
  refine ⟨calls_of_update (s := s) (w := w) (k := none) rfl (fun c hc ↦ (by cases hc))
    (fun v c hv hc ↦ ?_), hnone.balance, h.queue, h.popped, fun r hr ↦ ?_, ?_⟩
  · cases timedOut with
    | true =>
      cases taken with
      | none =>
        -- the mutex is not touched, and the null pointer has no number
        obtain ⟨hlocked, hleaving⟩ := h.calls v c hc
        refine ⟨hlocked, fun timed' timedOut' taken' heq ↦ ?_⟩
        have hother := hleaving timed' timedOut' taken' heq
        cases taken' with
        | none => exact hother
        | some entry =>
          refine ⟨hother.1, hother.2.1, hother.2.2.1, fun r hr m e htaken ↦ ?_⟩
          rcases List.mem_append.mp hr with hr | hr
          · exact hother.2.2.2 r hr m e htaken
          · rw [List.mem_singleton.mp hr] at htaken
            cases htaken
      | some entry => cases hresult.1
    | false =>
      refine (h.calls v c hc).of_owner ?_
      rw [howner rfl]
      exact fun heq ↦ hv (Option.some.inj heq).symm
  · rcases List.mem_append.mp hr with hr | hr
    · exact h.returned r hr
    · rw [List.mem_singleton.mp hr]
      cases taken with
      | none => exact hresult
      | some entry =>
        obtain ⟨-, hnumber, hentry, -⟩ := hresult
        exact ⟨Nat.lt_of_succ_le hnumber.le, hentry⟩
  · show ((s.returned ++ [Taken.mk timed timedOut taken]).filterMap number).Nodup
    rw [List.filterMap_append, List.nodup_append]
    cases taken with
    | none => exact ⟨h.numbers, List.nodup_nil, fun m _ n hn ↦ absurd hn List.not_mem_nil⟩
    | some entry =>
      refine ⟨h.numbers, List.nodup_singleton _, fun m hm n hn ↦ ?_⟩
      obtain ⟨r, hr, hnumber⟩ := List.mem_filterMap.mp hm
      obtain ⟨⟨m', e⟩, htaken, rfl⟩ := Option.map_eq_some_iff.mp hnumber
      rw [List.mem_singleton.mp hn]
      exact ne_of_lt (hresult.2.2.2 r hr m' e htaken)

theorem Sound.proceed {t : ObserverQueue δ τ} {call : QueueCall δ} (h : s.Sound)
    (hcall : s.calls w = some call) (hregular : s.Regular (.proceed w))
    (hstep : s.proceed w call = some t) : t.Sound := by
  cases call with
  | pushLocking d =>
    rw [ObserverQueue.proceed] at hstep
    split_ifs at hstep with howner
    obtain rfl := Option.some.inj hstep
    exact h.lock howner (by rw [hcall]; rfl) (fun _ _ _ hleaving ↦ (by cases hleaving))
  | pushing d =>
    obtain rfl := Option.some.inj hstep
    exact h.push hcall
  | posting =>
    obtain rfl := Option.some.inj hstep
    refine h.post hcall ?_
    rw [Regular, hcall] at hregular
    exact hregular
  | unlocking =>
    obtain rfl := Option.some.inj hstep
    exact h.unlock hcall
  | waiting timed =>
    rw [ObserverQueue.proceed] at hstep
    split_ifs at hstep with hvalue
    obtain rfl := Option.some.inj hstep
    exact h.wait hcall hvalue
  | popLocking timed =>
    rw [ObserverQueue.proceed] at hstep
    split_ifs at hstep with howner
    obtain rfl := Option.some.inj hstep
    exact h.lock howner (by rw [hcall]; rfl) (fun _ _ _ hleaving ↦ (by cases hleaving))
  | popping timed =>
    rw [ObserverQueue.proceed] at hstep
    split at hstep
    · rename_i hempty
      exact absurd hempty (h.queue_ne_nil hcall)
    · rename_i d rest hqueue
      obtain rfl := Option.some.inj hstep
      exact h.pop hcall hqueue
  | leaving timed timedOut taken =>
    obtain rfl := Option.some.inj hstep
    exact h.leave hcall

theorem Sound.step {t : ObserverQueue δ τ} {action : QueueAction δ τ} (h : s.Sound)
    (hregular : s.Regular action) (hstep : s.step action = some t) : t.Sound := by
  cases action with
  | update w d =>
    rw [ObserverQueue.step] at hstep
    split at hstep
    · rename_i hcall
      obtain rfl := Option.some.inj hstep
      refine h.moveTo (by rw [hcall]; rfl) (fun c hc ↦ ?_)
      obtain rfl := Option.some.inj hc
      exact ⟨fun hlocked ↦ (by cases hlocked), fun _ _ _ hleaving ↦ (by cases hleaving)⟩
    · cases hstep
  | updated w timed =>
    rw [ObserverQueue.step] at hstep
    split at hstep
    · rename_i hcall
      obtain rfl := Option.some.inj hstep
      refine h.moveTo (by rw [hcall]; rfl) (fun c hc ↦ ?_)
      obtain rfl := Option.some.inj hc
      exact ⟨fun hlocked ↦ (by cases hlocked), fun _ _ _ hleaving ↦ (by cases hleaving)⟩
    · cases hstep
  | proceed w =>
    rw [ObserverQueue.step] at hstep
    split at hstep
    · cases hstep
    · rename_i call hcall
      exact h.proceed hcall hregular hstep
  | interrupt w =>
    rw [ObserverQueue.step] at hstep
    split at hstep
    · obtain rfl := Option.some.inj hstep
      exact h
    · rename_i hcall
      rw [Regular, hcall] at hregular
      cases hregular
    · cases hstep
  | expire w =>
    rw [ObserverQueue.step] at hstep
    split at hstep
    · rename_i hcall
      obtain rfl := Option.some.inj hstep
      refine h.moveTo (by rw [hcall]; rfl) (fun c hc ↦ ?_)
      obtain rfl := Option.some.inj hc
      refine ⟨fun hlocked ↦ (by cases hlocked), fun timed timedOut taken hleaving ↦ ?_⟩
      obtain ⟨rfl, rfl, rfl⟩ := QueueCall.leaving.inj hleaving
      exact ⟨rfl, rfl⟩
    · cases hstep

end Preservation

/-- Assumes: a run in which no signal interrupts a wait without a timeout and no post meets the
greatest value of the semaphore. Nothing that was pushed is lost, the pointers come out in the order
in which they were pushed, each is returned at most once, the null pointer is returned only by a
call whose wait timed out, and between the calls the semaphore counts the pointers in the queue. -/
theorem nothing_lost [DecidableEq τ] {s : ObserverQueue δ τ}
    (hrun : Reaches step Regular (initial δ τ) s) :
    s.queue = s.pushed.drop s.popped ∧ (s.returned.filterMap number).Nodup ∧
      (∀ r ∈ s.returned, ∀ n d, r.taken = some (n, d) → n < s.popped ∧ s.pushed[n]? = some d) ∧
      (∀ r ∈ s.returned, r.taken = none → r.timed = true ∧ r.timedOut = true) ∧
      ((∀ w, s.calls w = none) → s.value = s.queue.length) := by
  have h := hrun.invariant (P := Sound) (fun _ _ _ h hregular hstep ↦ h.step hregular hstep)
    sound_initial
  refine ⟨h.queue, h.numbers, fun r hr n d htaken ↦ ?_, fun r hr htaken ↦ ?_, fun hidle ↦ ?_⟩
  · have hreturned := h.returned r hr
    rwa [ReturnSound, htaken] at hreturned
  · have hreturned := h.returned r hr
    rwa [ReturnSound, htaken] at hreturned
  · have htally : tally pendingTokens s.calls = 0 :=
      tally_eq_zero_iff.mpr fun w ↦ by rw [hidle w]; rfl
    have hbalance := h.balance
    rwa [htally, add_zero] at hbalance

/-- A signal interrupts a thread that waits for the first pointer. -/
def interruptedActions : List (QueueAction ℕ Bool) :=
  [.updated true false, .interrupt true, .proceed true, .proceed true, .proceed true]

/-- The call that was interrupted returns the null pointer, without a timeout. -/
theorem null_returned :
    ∃ s, Reaches step Unguarded (initial ℕ Bool) s ∧
      ∃ r ∈ s.returned, r.taken = none ∧ r.timed = false ∧ r.timedOut = false := by
  have hrun : (run step Unguarded (initial ℕ Bool) interruptedActions).map (fun s ↦
      s.returned.map fun r ↦ (r.taken, r.timed, r.timedOut)) = some [(none, false, false)] := by
    decide +kernel
  obtain ⟨s, hs, hreturned⟩ := Option.map_eq_some_iff.mp hrun
  refine ⟨s, reaches_of_run interruptedActions hs, ?_⟩
  obtain ⟨r, hr, hfields⟩ := List.mem_map.mp (hreturned ▸ List.mem_singleton.mpr rfl)
  obtain ⟨htaken, hrest⟩ := Prod.mk.inj hfields
  obtain ⟨htimed, htimedOut⟩ := Prod.mk.inj hrest
  exact ⟨r, hr, htaken, htimed, htimedOut⟩

/-- One thread pushes two pointers, which the other takes with a signal and an expired timeout in
between. -/
def busyActions : List (QueueAction ℕ Bool) :=
  [.updated true true, .interrupt true, .update false 7, .proceed false, .proceed false,
    .proceed false, .proceed false, .proceed true, .update false 8, .proceed true, .proceed true,
    .proceed true, .proceed false, .proceed false, .proceed false, .proceed false,
    .updated true true,
    .expire true, .proceed true, .updated true false, .proceed true, .proceed true, .proceed true,
    .proceed true]

theorem nothing_lost_busyActions :
    ∃ s, run step Regular (initial ℕ Bool) busyActions = some s ∧
      s.returned.map Taken.taken = [some (0, 7), none, some (1, 8)] ∧
      (s.returned.filterMap number).Nodup := by
  have hrun : (run step Regular (initial ℕ Bool) busyActions).map (fun s ↦
      s.returned.map Taken.taken) = some [some (0, 7), none, some (1, 8)] := by decide +kernel
  obtain ⟨s, hs, htaken⟩ := Option.map_eq_some_iff.mp hrun
  exact ⟨s, hs, htaken, (nothing_lost (reaches_of_run busyActions hs)).2.1⟩

end ObserverQueue

end VehicleComm.Core
