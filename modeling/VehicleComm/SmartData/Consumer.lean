import VehicleComm.Core.PeriodicThread
import VehicleComm.Library.GuardedRun
import VehicleComm.SmartData.Subscription

/-!
# The consumer's side of a smart datum

A `SmartData` in the role of a consumer, from its constructor to the end of its destructor. Two
threads send its messages: the one of the application, in the constructor, in `unsubscribe` and in
the destructor, and the `Periodic_Thread` of the refresh, whose job is `reactive_tick`. The receive
thread stores the time of the last response. `stop` joins the refresh thread, whose loop is the one
of `Core.PeriodicThread`; time, and readings of the clock, are arbitrary.

Whatever the interleaving, the consumer announces its interest any number of times, then its
disinterest up to three times, and nothing after that (`Consumer.Ordered`). The refresh thread never
looks at `_unsubscribed`; it is the join in `stop` that keeps its interests ahead of the
disinterests, in `unsubscribe` as in the destructor, and after `abandon` nothing is sent at all.
-/

set_option autoImplicit false
set_option relaxedAutoImplicit false

namespace VehicleComm.SmartData

open Library VehicleComm.Core

inductive Leaving
  | unsubscribe
  | abandon
  | destroy
deriving DecidableEq

/-- Where the thread of the application is: before the constructor, at its first `send_interest`, at
the two others when there is no refresh, before the refresh thread is created, outside the object's
functions, in `_refresh->stop()`, in the loop of `unsubscribe`, in the destructor before the last
`send_interest`, and past it. -/
inductive OwnerPhase
  | unborn
  | announcing
  | repeating (left : ℕ)
  | starting
  | live
  | joining (leaving : Leaving)
  | parting (left : ℕ)
  | destroying
  | gone
deriving DecidableEq

/-- Where the refresh thread is in `reactive_tick`, when its loop is in the job. -/
inductive TickPhase
  | loading
  | comparing (lastNs : ℤ)
  | sending
  | done
deriving DecidableEq

/-- A consumer. That `abandon` was called is for the record. -/
structure Consumer where
  owner : OwnerPhase
  refresh : Option PeriodicLoop
  tick : TickPhase
  lastResponseNs : ℤ
  reissues : ℕ
  unsubscribed : Bool
  abandoned : Bool

/-- What may happen: the application calls a function or goes on in one, the refresh thread goes on,
the receive thread handles a response, time passes. `nowNs` is a reading of the clock. -/
inductive ConsumerAction
  | call (leaving : Leaving)
  | own (nowNs : ℤ)
  | refresh (nowNs : ℤ)
  | response (nowNs : ℤ)
  | elapse (d : ℕ)
deriving DecidableEq

namespace Consumer

def initial : Consumer := ⟨.unborn, none, .loading, 0, 0, false, false⟩

/-- `_refresh->stop()` up to the join. -/
def stopRefresh (c : Consumer) : Consumer :=
  { c with refresh := c.refresh.map fun loop ↦ { loop with running := false } }

/-- A thread that `stop` need not wait for. -/
def isOver : Option PeriodicLoop → Bool
  | none => true
  | some loop => loop.phase = .ended

@[simp] def quiet (c : Consumer) : Bool := isOver c.refresh

/-- The application calls `unsubscribe` or `abandon`, or destroys the object. -/
def call (c : Consumer) (leaving : Leaving) : Option Consumer :=
  if c.owner = .live then
    if leaving = .unsubscribe ∧ c.unsubscribed then some c
    else some { c.stopRefresh with owner := .joining leaving }
  else none

/-- The next step of the thread of the application in one of the object's functions, with the
argument of its call of `send_interest`. -/
def ownStep (autoRefresh : Bool) (c : Consumer) (nowNs : ℤ) : Option (Consumer × Option Bool) :=
  match c.owner with
  | .unborn => some ({ c with owner := .announcing, lastResponseNs := nowNs }, none)
  | .announcing =>
    some ({ c with owner := if autoRefresh then .starting else .repeating 2 }, some false)
  | .repeating 0 => some ({ c with owner := .live }, none)
  | .repeating (left + 1) => some ({ c with owner := .repeating left }, some false)
  | .starting =>
    some ({ c with owner := .live, refresh := some (.initial nowNs 1000000) }, none)
  | .live => none
  | .joining leaving =>
    if c.quiet then
      match leaving with
      | .unsubscribe => some ({ c with owner := .parting 3, unsubscribed := true }, none)
      | .abandon => some ({ c with owner := .live, unsubscribed := true, abandoned := true }, none)
      | .destroy =>
        some ({ c with owner := if c.unsubscribed then .gone else .destroying }, none)
    else none
  | .parting 0 => some ({ c with owner := .live }, none)
  | .parting (left + 1) => some ({ c with owner := .parting left }, some true)
  | .destroying => some ({ c with owner := .gone }, some true)
  | .gone => none

def refreshStep (c : Consumer) (nowNs : ℤ) : Option (Consumer × Option Bool) :=
  match c.refresh with
  | none => none
  | some loop =>
    match loop.phase, c.tick with
    | .working _, .loading => some ({ c with tick := .comparing c.lastResponseNs }, none)
    | .working _, .comparing lastNs =>
      if nowNs - lastNs ≥ interestRefreshNs then
        some ({ c with tick := .sending, reissues := c.reissues + 1 }, none)
      else some ({ c with tick := .done }, none)
    | .working _, .sending => some ({ c with tick := .done }, some false)
    | _, _ => loop.proceed.map fun next ↦ ({ c with refresh := some next, tick := .loading }, none)

/-- The step function of a consumer, with the message that the step sends. -/
def step (autoRefresh : Bool) (c : Consumer) : ConsumerAction → Option (Consumer × Option Bool)
  | .call leaving => (c.call leaving).map fun next ↦ (next, none)
  | .own nowNs => c.ownStep autoRefresh nowNs
  | .refresh nowNs => c.refreshStep nowNs
  | .response nowNs => some ({ c with lastResponseNs := nowNs }, none)
  | .elapse d =>
    some ({ c with refresh := c.refresh.map fun loop ↦ { loop with now := loop.now + d } }, none)

/-! ### The order of the messages -/

/-- What the consumer has said when it is not in one of its functions: no disinterest before
`unsubscribe` or `abandon` has returned, up to three after that, and at least one unless it was
abandoned; and then the refresh thread is over. -/
def Said (c : Consumer) (disinterests : ℕ) : Prop :=
  if c.unsubscribed then
    c.quiet = true ∧ disinterests ≤ 3 ∧ (c.abandoned = false → 0 < disinterests)
  else disinterests = 0

def OwnerOk (c : Consumer) (disinterests : ℕ) : Prop :=
  match c.owner with
  | .unborn | .announcing | .repeating _ | .starting =>
    disinterests = 0 ∧ c.unsubscribed = false ∧ c.quiet = true
  | .live => c.Said disinterests
  | .joining leaving => c.Said disinterests ∧ (leaving = .unsubscribe → c.unsubscribed = false)
  | .parting left => c.unsubscribed = true ∧ c.quiet = true ∧ disinterests + left = 3
  | .destroying => disinterests = 0 ∧ c.quiet = true
  | .gone => c.quiet = true ∧ disinterests ≤ 3 ∧ (c.abandoned = false → 0 < disinterests)

/-- The messages of a consumer, true for a disinterest: interests first, then disinterests. -/
structure Ordered (c : Consumer) (sent : List Bool) : Prop where
  split : ∃ interests, sent =
    List.replicate interests false ++ List.replicate (sent.count true) true
  ownerOk : c.OwnerOk (sent.count true)

theorem ordered_initial : initial.Ordered [] := ⟨⟨0, rfl⟩, rfl, rfl, rfl⟩

theorem Ordered.count_le {c : Consumer} {sent : List Bool} (h : c.Ordered sent) :
    sent.count true ≤ 3 := by
  have howner := h.ownerOk
  unfold OwnerOk Said at howner
  split at howner
  case h_8 => omega
  all_goals try split_ifs at howner
  all_goals omega

/-- A disinterest goes to the end. -/
theorem split_disinterest {sent : List Bool}
    (h : ∃ interests, sent =
      List.replicate interests false ++ List.replicate (sent.count true) true) :
    ∃ interests, sent ++ [true] =
      List.replicate interests false ++ List.replicate ((sent ++ [true]).count true) true := by
  obtain ⟨interests, hsent⟩ := h
  refine ⟨interests, ?_⟩
  have hcount : (sent ++ [true]).count true = sent.count true + 1 := by simp
  rw [hcount, List.replicate_succ', ← List.append_assoc, ← hsent]

/-- An interest goes to the end when there was no disinterest. -/
theorem split_interest {sent : List Bool}
    (h : ∃ interests, sent =
      List.replicate interests false ++ List.replicate (sent.count true) true)
    (hnone : sent.count true = 0) :
    ∃ interests, sent ++ [false] =
      List.replicate interests false ++ List.replicate ((sent ++ [false]).count true) true := by
  obtain ⟨interests, hsent⟩ := h
  refine ⟨interests + 1, ?_⟩
  have hcount : (sent ++ [false]).count true = 0 := by simp [hnone]
  rw [hcount, List.replicate_zero, List.append_nil, List.replicate_succ']
  rw [hnone, List.replicate_zero, List.append_nil] at hsent
  rw [← hsent]

theorem Said.of_same {c t : Consumer} {disinterests : ℕ} (h : c.Said disinterests)
    (hquiet : c.quiet = true → t.quiet = true) (hunsubscribed : t.unsubscribed = c.unsubscribed)
    (habandoned : t.abandoned = c.abandoned) : t.Said disinterests := by
  unfold Said at *
  rw [hunsubscribed, habandoned]
  split_ifs at h ⊢
  · exact ⟨hquiet h.1, h.2⟩
  · exact h

theorem quiet_stopRefresh (c : Consumer) : c.stopRefresh.quiet = c.quiet := by
  simp only [quiet, stopRefresh]
  cases c.refresh <;> rfl

/-- The application calls a function. -/
theorem Ordered.call {c t : Consumer} {sent : List Bool} (h : c.Ordered sent) {leaving : Leaving}
    (hstep : c.call leaving = some t) : t.Ordered sent := by
  unfold Consumer.call at hstep
  split_ifs at hstep with hlive hdone
  · obtain rfl := Option.some.inj hstep
    exact h
  · obtain rfl := Option.some.inj hstep
    have hsaid := h.ownerOk
    simp only [OwnerOk, hlive] at hsaid
    refine ⟨h.split, hsaid.of_same (fun hquiet ↦ (quiet_stopRefresh c).trans hquiet) rfl rfl,
      fun hleaving ↦ ?_⟩
    simpa [hleaving, stopRefresh] using hdone

/-- The next step of the thread of the application. -/
theorem Ordered.own {c t : Consumer} {sent : List Bool} {autoRefresh : Bool} {nowNs : ℤ}
    {message : Option Bool} (h : c.Ordered sent)
    (hstep : c.ownStep autoRefresh nowNs = some (t, message)) :
    t.Ordered (sent ++ message.toList) := by
  have howner := h.ownerOk
  unfold ownStep at hstep
  split at hstep
  case h_1 hphase =>
    cases hstep
    simp only [OwnerOk, hphase] at howner
    exact ⟨by simpa using h.split, by simpa [OwnerOk] using howner⟩
  case h_2 hphase =>
    cases hstep
    simp only [OwnerOk, hphase] at howner
    refine ⟨split_interest h.split howner.1, ?_⟩
    cases autoRefresh <;> simpa [OwnerOk] using howner
  case h_3 hphase =>
    cases hstep
    simp only [OwnerOk, hphase] at howner
    exact ⟨by simpa using h.split, by simp [OwnerOk, Said, howner]⟩
  case h_4 left hphase =>
    cases hstep
    simp only [OwnerOk, hphase] at howner
    exact ⟨split_interest h.split howner.1, by simpa [OwnerOk] using howner⟩
  case h_5 hphase =>
    cases hstep
    simp only [OwnerOk, hphase] at howner
    exact ⟨by simpa using h.split, by simp [OwnerOk, Said, howner]⟩
  case h_6 => cases hstep
  case h_7 leaving hphase =>
    simp only [OwnerOk, hphase] at howner
    obtain ⟨hsaid, hfirst⟩ := howner
    by_cases hquiet : c.quiet = true
    · rw [if_pos hquiet] at hstep
      cases leaving with
      | unsubscribe =>
        cases hstep
        have hnone : sent.count true = 0 := by simpa [Said, hfirst rfl] using hsaid
        exact ⟨by simpa using h.split, by simpa [OwnerOk, hnone] using hquiet⟩
      | abandon =>
        cases hstep
        refine ⟨by simpa using h.split, ?_⟩
        simpa [OwnerOk, Said] using ⟨hquiet, h.count_le⟩
      | destroy =>
        cases hstep
        refine ⟨by simpa using h.split, ?_⟩
        unfold Said at hsaid
        split_ifs at hsaid with hdone
        · simpa [OwnerOk, hdone] using hsaid
        · simpa [OwnerOk, hdone, hsaid] using hquiet
    · rw [if_neg hquiet] at hstep
      cases hstep
  case h_8 hphase =>
    cases hstep
    simp only [OwnerOk, hphase] at howner
    have hthree : sent.count true = 3 := howner.2.2
    exact ⟨by simpa using h.split, by simpa [OwnerOk, Said, howner.1, hthree] using howner.2.1⟩
  case h_9 left hphase =>
    cases hstep
    simp only [OwnerOk, hphase] at howner
    refine ⟨split_disinterest h.split, ?_⟩
    have hcount : (sent ++ [true]).count true = sent.count true + 1 := by simp
    simpa [OwnerOk, howner.1] using ⟨howner.2.1, by omega⟩
  case h_10 hphase =>
    cases hstep
    simp only [OwnerOk, hphase] at howner
    refine ⟨split_disinterest h.split, ?_⟩
    simpa [OwnerOk, howner.1] using howner.2
  case h_11 => cases hstep

/-- While the refresh thread runs the application is outside the object or waits for it, and no
disinterest was sent. -/
theorem OwnerOk.of_busy {c : Consumer} {disinterests : ℕ} (h : c.OwnerOk disinterests)
    (hbusy : c.quiet = false) : disinterests = 0 ∧ c.unsubscribed = false ∧
      (c.owner = .live ∨ ∃ leaving, c.owner = .joining leaving) := by
  unfold OwnerOk Said at h
  rw [hbusy] at h
  split at h
  case h_5 hphase =>
    split_ifs at h with hdone
    · simp at h
    · exact ⟨h, by simpa using hdone, Or.inl hphase⟩
  case h_6 leaving hphase =>
    split_ifs at h with hdone
    · simp at h
    · exact ⟨h.1, by simpa using hdone, Or.inr ⟨leaving, hphase⟩⟩
  all_goals simp at h

theorem ownerOk_of_subscribed {c : Consumer} (hsubscribed : c.unsubscribed = false)
    (howner : c.owner = .live ∨ ∃ leaving, c.owner = .joining leaving) : c.OwnerOk 0 := by
  have hsaid : c.Said 0 := by simp [Said, hsubscribed]
  rcases howner with hphase | ⟨leaving, hphase⟩
  · simpa only [OwnerOk, hphase] using hsaid
  · simp only [OwnerOk, hphase]
    exact ⟨hsaid, fun _ ↦ hsubscribed⟩

/-- The next step of the refresh thread. -/
theorem Ordered.refreshStep {c t : Consumer} {sent : List Bool} {nowNs : ℤ}
    {message : Option Bool} (h : c.Ordered sent)
    (hstep : c.refreshStep nowNs = some (t, message)) : t.Ordered (sent ++ message.toList) := by
  have hbusy : c.quiet = false := by
    unfold Consumer.refreshStep at hstep
    split at hstep
    case h_1 => cases hstep
    case h_2 loop hloop =>
      rw [quiet, hloop]
      by_contra hover
      have hended : loop.phase = .ended := by simpa [isOver] using hover
      rw [hended] at hstep
      simp [PeriodicLoop.proceed, hended] at hstep
  obtain ⟨hnone, hsubscribed, howner⟩ := h.ownerOk.of_busy hbusy
  have hkept : t.owner = c.owner ∧ t.unsubscribed = c.unsubscribed ∧
      (message = none ∨ message = some false) := by
    unfold Consumer.refreshStep at hstep
    split at hstep
    case h_1 => cases hstep
    case h_2 loop hloop =>
      split at hstep
      case h_2 =>
        split_ifs at hstep
        all_goals
          cases hstep
          exact ⟨rfl, rfl, Or.inl rfl⟩
      case h_4 =>
        obtain ⟨next, -, hnext⟩ := Option.map_eq_some_iff.mp hstep
        cases hnext
        exact ⟨rfl, rfl, Or.inl rfl⟩
      case h_1 =>
        cases hstep
        exact ⟨rfl, rfl, Or.inl rfl⟩
      case h_3 =>
        cases hstep
        exact ⟨rfl, rfl, Or.inr rfl⟩
  obtain ⟨hsameOwner, hsame, hmessage⟩ := hkept
  have hafter : t.OwnerOk 0 :=
    ownerOk_of_subscribed (hsame.trans hsubscribed) (by rwa [hsameOwner])
  rcases hmessage with rfl | rfl
  · exact ⟨by simpa using h.split, by simpa [hnone] using hafter⟩
  · exact ⟨split_interest h.split hnone, by simpa [hnone] using hafter⟩

/-- Each step keeps the order of the messages. -/
theorem Ordered.step {autoRefresh : Bool} {c t : Consumer} {sent : List Bool}
    {action : ConsumerAction} {message : Option Bool} (h : c.Ordered sent)
    (hstep : c.step autoRefresh action = some (t, message)) :
    t.Ordered (sent ++ message.toList) := by
  cases action with
  | call leaving =>
    obtain ⟨next, hcall, heq⟩ := Option.map_eq_some_iff.mp hstep
    cases heq
    rw [Option.toList_none, List.append_nil]
    exact h.call hcall
  | own nowNs => exact h.own hstep
  | refresh nowNs => exact h.refreshStep hstep
  | response nowNs =>
    cases hstep
    exact ⟨by simpa using h.split, by simpa [OwnerOk, Said] using h.ownerOk⟩
  | elapse d =>
    cases hstep
    have hsame : isOver (c.refresh.map fun loop ↦ { loop with now := loop.now + d }) =
        isOver c.refresh := by
      cases c.refresh <;> rfl
    exact ⟨by simpa using h.split, by simpa [OwnerOk, Said, hsame] using h.ownerOk⟩

end Consumer

end VehicleComm.SmartData
